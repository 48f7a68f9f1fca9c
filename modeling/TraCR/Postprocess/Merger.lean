import TraCR.Engine.Payload
import TraCR.Lib.SortedList

/-!
# The k-way merge

`PayloadMerger` of `tracr_process.cpp`: one cursor per file and a heap with one
entry per file that is not exhausted.  Which of several entries with the least
timestamp `std::priority_queue::top` returns is left to the implementation, so
the choice is a parameter.
-/

namespace TraCR

structure Entry where
  timestamp : UInt64
  fileIdx : Nat
deriving DecidableEq, Repr

structure PayloadMerger where
  files : List (List Payload)
  ptrs : List Nat
  heap : List Entry

/-- What `std::priority_queue::top` returns.  It may depend on everything the
queue has seen, hence on the state of the merger. -/
structure HeapTop where
  top : PayloadMerger → Entry
  top_mem : ∀ m, m.heap ≠ [] → top m ∈ m.heap
  top_min : ∀ m, ∀ e ∈ m.heap, (top m).timestamp ≤ e.timestamp

def leastEntry : List Entry → Entry
  | [] => ⟨0, 0⟩
  | [e] => e
  | e :: es => if e.timestamp ≤ (leastEntry es).timestamp then e else leastEntry es

theorem leastEntry_mem {es : List Entry} (h : es ≠ []) : leastEntry es ∈ es := by
  induction es with
  | nil => exact absurd rfl h
  | cons e es ih =>
      cases es with
      | nil => simp [leastEntry]
      | cons e' es =>
          rw [leastEntry]
          · split
            · simp
            · exact List.mem_cons_of_mem _ (ih (by simp))
          · simp

theorem leastEntry_le {es : List Entry} {e : Entry} (he : e ∈ es) :
    (leastEntry es).timestamp ≤ e.timestamp := by
  induction es with
  | nil => cases he
  | cons e' es ih =>
      cases es with
      | nil =>
          rw [List.mem_singleton.mp he]
          exact UInt64.le_refl _
      | cons e'' es =>
          rw [leastEntry]
          · rcases List.mem_cons.mp he with rfl | he
            · split
              · exact UInt64.le_refl _
              next hnot =>
                exact UInt64.le_of_lt (UInt64.not_le.mp hnot)
            · split
              next hle =>
                exact UInt64.le_trans hle (ih he)
              · exact ih he
          · simp

def HeapTop.first : HeapTop where
  top m := leastEntry m.heap
  top_mem _ h := leastEntry_mem h
  top_min _ _ h := leastEntry_le h

namespace PayloadMerger

def entryAt (files : List (List Payload)) (i ptr : Nat) : Option Entry :=
  (files[i]?.bind fun file => file[ptr]?).map fun p => ⟨p.timestamp, i⟩

/-- The constructor: all cursors at zero, one entry per non-empty file. -/
def ofFiles (files : List (List Payload)) : PayloadMerger where
  files := files
  ptrs := List.replicate files.length 0
  heap := (List.range files.length).filterMap fun i => entryAt files i 0

def empty (m : PayloadMerger) : Bool := m.heap.isEmpty

/-- The next payload, the index of its file, and the merger after it.  `none`
stands for a read outside the files or from an empty heap. -/
def next (q : HeapTop) (m : PayloadMerger) : Option ((Payload × Nat) × PayloadMerger) :=
  if m.heap = [] then none
  else
    let top := q.top m
    let heap := m.heap.erase top
    let ptr := m.ptrs.getD top.fileIdx 0
    match m.files[top.fileIdx]?.bind fun file => file[ptr]? with
    | none => none
    | some p =>
        some ((p, top.fileIdx),
          { m with
            ptrs := m.ptrs.set top.fileIdx (ptr + 1)
            heap := (entryAt m.files top.fileIdx (ptr + 1)).toList ++ heap })

def drain (q : HeapTop) : Nat → PayloadMerger → List (Payload × Nat)
  | 0, _ => []
  | fuel + 1, m =>
      if m.empty then []
      else
        match m.next q with
        | none => []
        | some (x, m) => x :: drain q fuel m

end PayloadMerger

/-- The stream the exporters loop over: every payload of the files, once. -/
def mergedStream (q : HeapTop) (files : List (List Payload)) : List (Payload × Nat) :=
  (PayloadMerger.ofFiles files).drain q (files.map List.length).sum

def mergedPayloads (q : HeapTop) (files : List (List Payload)) : List Payload :=
  (mergedStream q files).map Prod.fst

def TimeSorted (file : List Payload) : Prop :=
  Lib.SortedList.SortedBy Payload.time file

instance (file : List Payload) : Decidable (TimeSorted file) :=
  inferInstanceAs (Decidable (Lib.SortedList.SortedBy Payload.time file))

end TraCR
