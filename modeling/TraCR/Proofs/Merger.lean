import Mathlib.Algebra.BigOperators.Group.Finset.Piecewise
import Mathlib.Algebra.Order.BigOperators.Group.Finset
import TraCR.Lib.Interleaving
import TraCR.Postprocess.Merger

/-!
# The merge is a sorted interleaving

The heap holds one entry per file that is not exhausted, for the payload under
its cursor.  One call of `next` keeps this and takes the head of one remaining
file, so the whole stream interleaves the files; with sorted files the head
taken is never later than what remains anywhere.
-/

namespace TraCR.PayloadMerger

open TraCR.Lib.Interleaving TraCR.Lib.SortedList

def rest (m : PayloadMerger) (i : Nat) : List Payload :=
  (nthSource m.files i).drop (m.ptrs.getD i 0)

/-- The heap entries are the entries under the cursors, one per file. -/
structure Valid (m : PayloadMerger) : Prop where
  cursors : m.ptrs.length = m.files.length
  nodup : (m.heap.map Entry.fileIdx).Nodup
  mem_heap : ∀ e, e ∈ m.heap ↔
    (m.rest e.fileIdx).head?.map (fun p => Entry.mk p.timestamp e.fileIdx) = some e

variable {m : PayloadMerger} {q : HeapTop} {files : List (List Payload)}

theorem entryAt_eq (files : List (List Payload)) (i ptr : Nat) :
    entryAt files i ptr =
      ((nthSource files i).drop ptr).head?.map fun p => ⟨p.timestamp, i⟩ := by
  rw [entryAt, List.head?_drop]
  by_cases h : i < files.length
  · simp [nthSource_of_lt h, h]
  · simp [nthSource_of_le (Nat.le_of_not_lt h), h]

@[simp] theorem rest_ofFiles (i : Nat) : (ofFiles files).rest i = nthSource files i := by
  by_cases h : i < files.length <;> simp [rest, ofFiles, h]

theorem valid_ofFiles (files : List (List Payload)) : (ofFiles files).Valid where
  cursors := by simp [ofFiles]
  nodup := by
    have hindex : ∀ i e, entryAt files i 0 = some e → e.fileIdx = i := by
      intro i e he
      rw [entryAt_eq, Option.map_eq_some_iff] at he
      obtain ⟨p, -, rfl⟩ := he
      rfl
    rw [ofFiles, List.Nodup, List.pairwise_map, List.pairwise_filterMap]
    exact (List.nodup_range (n := files.length)).imp fun hne e he e' he' =>
      hindex _ e he ▸ hindex _ e' he' ▸ hne
  mem_heap := by
    intro e
    rw [rest_ofFiles]
    simp only [ofFiles, List.mem_filterMap, List.mem_range, entryAt_eq, List.drop_zero,
      Option.map_eq_some_iff]
    constructor
    · rintro ⟨i, -, p, hp, rfl⟩
      exact ⟨p, hp, rfl⟩
    · rintro ⟨p, hp, he⟩
      refine ⟨e.fileIdx, ?_, p, hp, he⟩
      by_contra hlong
      rw [nthSource_of_le (by omega)] at hp
      cases hp

theorem Valid.rest_eq_nil (h : m.Valid) (hempty : m.heap = []) (i : Nat) :
    m.rest i = [] := by
  cases hrest : m.rest i with
  | nil => rfl
  | cons p ps =>
      have hmem : (⟨p.timestamp, i⟩ : Entry) ∈ m.heap :=
        (h.mem_heap _).mpr (by simp [hrest])
      rw [hempty] at hmem
      cases hmem

structure Takes (m m' : PayloadMerger) (p : Payload) (i : Nat) : Prop where
  valid : m'.Valid
  same_files : m'.files = m.files
  taken : m.rest i = p :: m'.rest i
  other : ∀ j, j ≠ i → m.rest j = m'.rest j
  least : ∀ j a, (m.rest j).head? = some a → p.time ≤ a.time

private theorem rest_set {i ptr j : Nat} {heap : List Entry}
    (hcursor : i < m.ptrs.length) :
    rest { m with ptrs := m.ptrs.set i ptr, heap := heap } j =
      if j = i then (nthSource m.files i).drop ptr else m.rest j := by
  by_cases hj : j = i
  · subst hj
    simp [rest, hcursor]
  · simp [rest, hj, List.getElem?_set_ne (Ne.symm hj)]

private theorem Valid.erase_top (h : m.Valid) {top : Entry} (htop : top ∈ m.heap) :
    ((m.heap.erase top).map Entry.fileIdx).Nodup ∧
      ∀ e ∈ m.heap.erase top, e.fileIdx ≠ top.fileIdx := by
  have hperm := (List.perm_cons_erase htop).map Entry.fileIdx
  obtain ⟨hnotin, hnodup⟩ := List.nodup_cons.mp (hperm.nodup_iff.mp h.nodup)
  exact ⟨hnodup, fun e he heq => hnotin (heq ▸ List.mem_map_of_mem he)⟩

private theorem Valid.advance (h : m.Valid) {top : Entry} (htop : top ∈ m.heap)
    (hcursor : top.fileIdx < m.ptrs.length) (ptr : Nat) :
    Valid { m with
      ptrs := m.ptrs.set top.fileIdx ptr
      heap := (entryAt m.files top.fileIdx ptr).toList ++ m.heap.erase top } := by
  obtain ⟨hnodup, hother⟩ := h.erase_top htop
  have hindex : ∀ e ∈ (entryAt m.files top.fileIdx ptr).toList,
      e.fileIdx = top.fileIdx := by
    intro e he
    rw [Option.mem_toList, entryAt_eq, Option.map_eq_some_iff] at he
    obtain ⟨p, -, rfl⟩ := he
    rfl
  refine ⟨?_, ?_, ?_⟩
  · simpa using h.cursors
  · rw [List.map_append, List.nodup_append]
    refine ⟨?_, hnodup, ?_⟩
    · cases entryAt m.files top.fileIdx ptr <;> simp
    · intro i hi j hj heq
      obtain ⟨e, he, rfl⟩ := List.mem_map.mp hi
      obtain ⟨e', he', rfl⟩ := List.mem_map.mp hj
      exact hother e' he' (heq ▸ hindex e he)
  · intro e
    rw [rest_set hcursor, List.mem_append]
    by_cases he : e.fileIdx = top.fileIdx
    · have hnot : e ∉ m.heap.erase top := fun hmem => hother e hmem he
      simp [hnot, he, entryAt_eq]
    · have hnot : e ∉ (entryAt m.files top.fileIdx ptr).toList :=
        fun hmem => he (hindex e hmem)
      have hne : e ≠ top := fun heq => he (congrArg Entry.fileIdx heq)
      rw [if_neg he, List.mem_erase_of_ne hne, ← h.mem_heap e]
      simp [hnot]

/-- `next` never reads outside a file and takes the least payload that remains. -/
theorem Valid.next (h : m.Valid) (q : HeapTop) (hne : m.heap ≠ []) :
    ∃ p i m', m.next q = some ((p, i), m') ∧ Takes m m' p i := by
  have htop : q.top m ∈ m.heap := q.top_mem m hne
  obtain ⟨p, hhead, hentry⟩ := Option.map_eq_some_iff.mp ((h.mem_heap _).mp htop)
  have hlt : (q.top m).fileIdx < m.files.length := by
    by_contra hlong
    rw [rest, nthSource_of_le (by omega)] at hhead
    simp at hhead
  have hcursor : (q.top m).fileIdx < m.ptrs.length := h.cursors ▸ hlt
  have hread : (m.files[(q.top m).fileIdx]?.bind fun file =>
      file[m.ptrs.getD (q.top m).fileIdx 0]?) = some p := by
    rw [List.getElem?_eq_getElem hlt, Option.bind_some]
    rwa [rest, nthSource_of_lt hlt, List.head?_drop] at hhead
  have hnext : m.next q = some ((p, (q.top m).fileIdx), { m with
      ptrs := m.ptrs.set (q.top m).fileIdx (m.ptrs.getD (q.top m).fileIdx 0 + 1)
      heap := (entryAt m.files (q.top m).fileIdx
        (m.ptrs.getD (q.top m).fileIdx 0 + 1)).toList ++ m.heap.erase (q.top m) }) := by
    rw [PayloadMerger.next, if_neg hne]
    simp only [hread]
  refine ⟨p, _, _, hnext, h.advance htop hcursor _, rfl, ?_, ?_, ?_⟩
  · rw [rest_set hcursor, if_pos rfl, ← List.tail_drop]
    obtain ⟨ps, hps⟩ := List.head?_eq_some_iff.mp hhead
    rw [hps, ← rest, hps, List.tail_cons]
  · intro j hj
    rw [rest_set hcursor, if_neg hj]
  · intro j a ha
    have hmem : (⟨a.timestamp, j⟩ : Entry) ∈ m.heap := (h.mem_heap _).mpr (by simp [ha])
    have hmin := q.top_min m _ hmem
    rw [← hentry] at hmin
    exact hmin

def remaining (m : PayloadMerger) : Nat :=
  ∑ i ∈ Finset.range m.files.length, (m.rest i).length

theorem rest_of_le {i : Nat} (h : m.files.length ≤ i) : m.rest i = [] := by
  rw [rest, nthSource_of_le h, List.drop_nil]

theorem Takes.lt_length {m' : PayloadMerger} {p : Payload} {i : Nat} (h : Takes m m' p i) :
    i < m.files.length := by
  by_contra hlong
  have htaken := h.taken
  rw [rest_of_le (by omega)] at htaken
  cases htaken

theorem Takes.remaining_eq {m' : PayloadMerger} {p : Payload} {i : Nat} (h : Takes m m' p i) :
    m.remaining = m'.remaining + 1 := by
  have hlength : ∀ j, (m.rest j).length = (m'.rest j).length + if j = i then 1 else 0 := by
    intro j
    by_cases hj : j = i
    · rw [hj, h.taken, if_pos rfl, List.length_cons]
    · rw [h.other j hj, if_neg hj, Nat.add_zero]
  simp only [remaining, h.same_files, hlength]
  rw [Finset.sum_add_distrib, Finset.sum_ite_eq',
    if_pos (Finset.mem_range.mpr h.lt_length)]

theorem Valid.empty_iff (h : m.Valid) : m.empty = true ↔ m.remaining = 0 := by
  rw [PayloadMerger.empty, List.isEmpty_iff]
  constructor
  · intro hempty
    rw [remaining]
    exact Finset.sum_eq_zero fun i _ => by rw [h.rest_eq_nil hempty i, List.length_nil]
  · intro hzero
    by_contra hne
    obtain ⟨p, i, m', -, htakes⟩ := h.next .first hne
    have := htakes.remaining_eq
    omega

/-! ## Calls of `next` -/

/-- Calls of `next` one after the other, while the heap is not empty.  At every call the
heap may put any of its least entries on top. -/
inductive Calls : PayloadMerger → List (Payload × Nat) → PayloadMerger → Prop where
  | done (m : PayloadMerger) : Calls m [] m
  | next {m m' m'' : PayloadMerger} {q : HeapTop} {x : Payload × Nat}
      {out : List (Payload × Nat)} (hempty : m.empty = false)
      (hnext : m.next q = some (x, m')) (hrest : Calls m' out m'') : Calls m (x :: out) m''

theorem Valid.takes_of_next (h : m.Valid) {m' : PayloadMerger} {x : Payload × Nat}
    (hnext : m.next q = some (x, m')) : Takes m m' x.1 x.2 := by
  have hne : m.heap ≠ [] := by
    intro hnil
    rw [PayloadMerger.next, if_pos hnil] at hnext
    cases hnext
  obtain ⟨p, i, m₁, hsome, htakes⟩ := h.next q hne
  obtain ⟨rfl, rfl⟩ := Prod.mk.inj (Option.some.inj (hsome.symm.trans hnext))
  exact htakes

section Calls

variable {m' : PayloadMerger} {out : List (Payload × Nat)}

theorem Calls.valid (h : Calls m out m') (hm : m.Valid) : m'.Valid := by
  induction h with
  | done => exact hm
  | next _ hnext _ ih => exact ih (hm.takes_of_next hnext).valid

theorem Calls.rest_eq (h : Calls m out m') (hm : m.Valid) (i : Nat) :
    m.rest i = source i out ++ m'.rest i := by
  induction h with
  | done => rfl
  | @next m m₁ m'' q x out _ hnext _ ih =>
      have htakes := hm.takes_of_next hnext
      have hrest := ih htakes.valid
      by_cases hi : i = x.2
      · subst hi
        rw [htakes.taken, hrest, source_cons_self, List.cons_append]
      · rw [htakes.other i hi, hrest, source_cons_ne (Ne.symm hi)]

theorem Calls.remaining_eq (h : Calls m out m') (hm : m.Valid) :
    m.remaining = out.length + m'.remaining := by
  induction h with
  | done => simp
  | next _ hnext _ ih =>
      have htakes := hm.takes_of_next hnext
      rw [htakes.remaining_eq, ih htakes.valid, List.length_cons]
      omega

theorem Calls.mem_rest (h : Calls m out m') (hm : m.Valid) {x : Payload × Nat} (hx : x ∈ out) :
    x.1 ∈ m.rest x.2 := by
  rw [h.rest_eq hm]
  exact List.mem_append_left _ (mem_source.mpr hx)

theorem Calls.sorted (h : Calls m out m') (hm : m.Valid) (hsort : ∀ i, TimeSorted (m.rest i)) :
    TimeSorted (out.map Prod.fst) := by
  induction h with
  | done => exact SortedBy.nil
  | @next m m₁ m'' q x out hempty hnext hrest ih =>
      have htakes := hm.takes_of_next hnext
      have hcalls : Calls m (x :: out) m'' := .next hempty hnext hrest
      have hsort' : ∀ j, TimeSorted (m₁.rest j) := by
        intro j
        by_cases hj : j = x.2
        · have hi := hsort x.2
          rw [htakes.taken] at hi
          exact hj ▸ hi.tail
        · exact htakes.other j hj ▸ hsort j
      rw [List.map_cons]
      refine List.pairwise_cons.mpr ⟨?_, ih htakes.valid hsort'⟩
      intro a ha
      obtain ⟨⟨a', j⟩, hmem, rfl⟩ := List.mem_map.mp ha
      -- the head of the file of `a'` is no earlier than `x` and no later than `a'`
      have hin : a' ∈ m.rest j := hcalls.mem_rest hm (List.mem_cons_of_mem _ hmem)
      obtain ⟨c, ps, hps⟩ := List.exists_cons_of_ne_nil (List.ne_nil_of_mem hin)
      have hleast : x.1.time ≤ c.time := htakes.least j c (by rw [hps]; rfl)
      have hj := hsort j
      rw [hps] at hj hin
      exact le_trans hleast (hj.head_le hin)

end Calls

theorem Valid.exists_calls_drain (h : m.Valid) (q : HeapTop) {fuel : Nat}
    (hfuel : m.remaining ≤ fuel) : ∃ m', Calls m (m.drain q fuel) m' ∧ m'.empty = true := by
  induction fuel generalizing m with
  | zero => exact ⟨m, .done m, h.empty_iff.mpr (by omega)⟩
  | succ fuel ih =>
      rw [drain]
      by_cases hempty : m.empty = true
      · rw [if_pos hempty]
        exact ⟨m, .done m, hempty⟩
      · rw [if_neg hempty]
        have hne : m.heap ≠ [] := by simpa [PayloadMerger.empty] using hempty
        obtain ⟨p, i, m₁, hnext, htakes⟩ := h.next q hne
        have hless := htakes.remaining_eq
        obtain ⟨m', hcalls, hlast⟩ := ih htakes.valid (by omega)
        simp only [hnext]
        exact ⟨m', .next (Bool.eq_false_of_not_eq_true hempty) hnext hcalls, hlast⟩

theorem Valid.drain_interleaves (h : m.Valid) (q : HeapTop) {fuel : Nat}
    (hfuel : m.remaining ≤ fuel) : Interleaves m.rest (m.drain q fuel) := by
  obtain ⟨m', hcalls, hempty⟩ := h.exists_calls_drain q hfuel
  intro i
  have hnil : m'.rest i = [] :=
    (hcalls.valid h).rest_eq_nil (by simpa [PayloadMerger.empty] using hempty) i
  rw [hcalls.rest_eq h i, hnil, List.append_nil]

theorem Valid.drain_sorted (h : m.Valid) (q : HeapTop) {fuel : Nat}
    (hfuel : m.remaining ≤ fuel) (hsort : ∀ i, TimeSorted (m.rest i)) :
    TimeSorted ((m.drain q fuel).map Prod.fst) := by
  obtain ⟨m', hcalls, -⟩ := h.exists_calls_drain q hfuel
  exact hcalls.sorted h hsort

@[simp] theorem files_ofFiles (files : List (List Payload)) :
    (ofFiles files).files = files := rfl

theorem remaining_ofFiles (files : List (List Payload)) :
    (ofFiles files).remaining = (files.map List.length).sum := by
  have hsum : ∑ i ∈ Finset.range files.length, (nthSource files i).length =
      (files.map List.length).sum := by
    induction files with
    | nil => rfl
    | cons file files ih =>
        rw [List.length_cons, Finset.sum_range_succ', List.map_cons, List.sum_cons, ← ih,
          Nat.add_comm]
        rfl
  simpa [remaining] using hsum

end TraCR.PayloadMerger

namespace TraCR

open TraCR.Lib.Interleaving TraCR.Lib.SortedList

variable (q : HeapTop) (files : List (List Payload))

/-- The merged stream keeps every file: nothing is lost, duplicated, reordered
within a file or attributed to another file. -/
theorem mergedStream_interleaves : Interleaves (nthSource files) (mergedStream q files) := by
  have h := (PayloadMerger.valid_ofFiles files).drain_interleaves q
    (le_of_eq (PayloadMerger.remaining_ofFiles files))
  intro i
  rw [← @PayloadMerger.rest_ofFiles files i]
  exact h i

theorem mergedPayloads_perm : (mergedPayloads q files).Perm files.flatten :=
  (mergedStream_interleaves q files).perm_flatten

variable {q files}

theorem mem_mergedPayloads {p : Payload} :
    p ∈ mergedPayloads q files ↔ ∃ file ∈ files, p ∈ file := by
  rw [(mergedPayloads_perm q files).mem_iff, List.mem_flatten]

theorem timeSorted_nthSource (h : ∀ file ∈ files, TimeSorted file) (i : Nat) :
    TimeSorted (nthSource files i) := by
  by_cases hi : i < files.length
  · rw [nthSource_of_lt hi]
    exact h _ (List.getElem_mem hi)
  · rw [nthSource_of_le (by omega)]
    exact SortedBy.nil

theorem mergedPayloads_sorted (h : ∀ file ∈ files, TimeSorted file) :
    SortedBy Payload.time (mergedPayloads q files) := by
  apply (PayloadMerger.valid_ofFiles files).drain_sorted q
    (le_of_eq (PayloadMerger.remaining_ofFiles files))
  intro i
  rw [PayloadMerger.rest_ofFiles]
  exact timeSorted_nthSource h i

/-! ## The merge -/

/-- `next` can be called until the heap is empty, which it is after as many calls as the
files have payloads; what it has yielded then is each file, in order, under its index. -/
structure Merges (files : List (List Payload)) (out : List (Payload × Nat))
    (m : PayloadMerger) : Prop where
  reads : m.empty = false → ∀ q, (m.next q).isSome
  length_le : out.length ≤ (files.map List.length).sum
  stops : m.empty = true ↔ out.length = (files.map List.length).sum
  index_lt : ∀ x ∈ out, x.2 < files.length
  taken : ∀ i (_ : i < files.length), source i out <+: files[i]
  whole : m.empty = true → ∀ i (_ : i < files.length), source i out = files[i]
  sorted : (∀ file ∈ files, TimeSorted file) → SortedBy Payload.time (out.map Prod.fst)

/-- Whatever the heap puts on top among its least entries, the calls merge the files. -/
theorem merges_of_calls {out : List (Payload × Nat)} {m : PayloadMerger}
    (h : PayloadMerger.Calls (.ofFiles files) out m) : Merges files out m := by
  have hvalid := PayloadMerger.valid_ofFiles files
  have hremaining := h.remaining_eq hvalid
  rw [PayloadMerger.remaining_ofFiles] at hremaining
  have hsplit : ∀ i (_ : i < files.length), files[i] = source i out ++ m.rest i := by
    intro i hi
    rw [← h.rest_eq hvalid, PayloadMerger.rest_ofFiles, nthSource_of_lt hi]
  constructor
  case reads =>
    intro hempty q
    have hne : m.heap ≠ [] := by
      intro hnil
      simp [PayloadMerger.empty, hnil] at hempty
    obtain ⟨p, i, m', hnext, -⟩ := (h.valid hvalid).next q hne
    rw [hnext]
    rfl
  case length_le => omega
  case stops =>
    rw [(h.valid hvalid).empty_iff]
    omega
  case index_lt =>
    intro x hx
    by_contra hlong
    have hmem := h.mem_rest hvalid hx
    rw [PayloadMerger.rest_of_le (by simpa using hlong)] at hmem
    cases hmem
  case taken =>
    intro i hi
    exact ⟨m.rest i, (hsplit i hi).symm⟩
  case whole =>
    intro hempty i hi
    have hnil : m.rest i = [] :=
      (h.valid hvalid).rest_eq_nil (by simpa [PayloadMerger.empty] using hempty) i
    rw [hsplit i hi, hnil, List.append_nil]
  case sorted =>
    intro hsort
    refine h.sorted hvalid ?_
    intro i
    rw [PayloadMerger.rest_ofFiles]
    exact timeSorted_nthSource hsort i

def tiedFiles : List (List Payload) :=
  [[⟨0, 1, uint32Max, 5⟩, ⟨0, eventIdReset, uint32Max, 9⟩], [], [⟨1, 2, uint32Max, 5⟩]]

theorem merges_tiedFiles :
    ∃ m, PayloadMerger.Calls (.ofFiles tiedFiles) (mergedStream .first tiedFiles) m ∧
      m.empty = true ∧ Merges tiedFiles (mergedStream .first tiedFiles) m := by
  obtain ⟨m, hcalls, hempty⟩ := (PayloadMerger.valid_ofFiles tiedFiles).exists_calls_drain .first
    (le_of_eq (PayloadMerger.remaining_ofFiles tiedFiles))
  exact ⟨m, hcalls, hempty, merges_of_calls hcalls⟩

end TraCR
