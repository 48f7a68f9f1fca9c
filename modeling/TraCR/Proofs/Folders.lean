import Mathlib.Data.List.Induction
import TraCR.Lib.Lines
import TraCR.Lib.Sharing
import TraCR.Engine.Folders

/-!
# Processes that make their folders at the same time

The processes of a job make the shared folders and their own at once.  Whatever the order
of their `mkdir` calls, each of them gets the answer it would get alone, because a folder
that somebody else has made first counts as made.
-/

namespace TraCR

open TraCR.Lib TraCR.Lib.Sharing TraCR.Lib.Interleaving

/-! ## Paths -/

def slashed (names : List String) : List Char :=
  names.flatMap fun name => name.toList ++ ['/']

def IsName (name : String) : Prop := name.toList ≠ [] ∧ '/' ∉ name.toList

theorem isName_of_mem_components {path name : String} (h : name ∈ components path) :
    IsName name := by
  obtain ⟨piece, hpiece, rfl⟩ := List.mem_map.mp h
  obtain ⟨hsplit, hne⟩ := List.mem_filter.mp hpiece
  rw [IsName, String.toList_ofList]
  exact ⟨by simpa using hne, Lines.not_mem_of_mem_splitOn hsplit⟩

theorem splitOn_slashed {names : List String} (h : ∀ name ∈ names, IsName name) :
    (slashed names).splitOn '/' = names.map String.toList ++ [[]] := by
  induction names with
  | nil => rfl
  | cons name names ih =>
      obtain ⟨hname, hnames⟩ := List.forall_mem_cons.mp h
      have htext : slashed (name :: names) = name.toList ++ '/' :: slashed names := by
        simp [slashed]
      rw [htext, List.splitOn_append_cons_self_of_not_mem hname.2, ih hnames]
      rfl

theorem components_of_slashed {path : String} {root : List Char} {names : List String}
    (h : ∀ name ∈ names, IsName name) (hroot : root = [] ∨ root = ['/'])
    (hpath : path.toList = root ++ slashed names) : components path = names := by
  have hkeep : ((names.map String.toList ++ [[]]).filter fun name => !name.isEmpty) =
      names.map String.toList := by
    rw [List.filter_append, List.filter_eq_self.mpr]
    · simp
    · intro name hname
      obtain ⟨name', hname', rfl⟩ := List.mem_map.mp hname
      simpa using (h name' hname').1
  unfold components
  rcases hroot with rfl | rfl
  · rw [hpath, List.nil_append, splitOn_slashed h, hkeep]
    simp [Function.comp_def]
  · have hsplit : (['/'] ++ slashed names).splitOn '/' = [] :: (slashed names).splitOn '/' :=
      List.splitOn_append_cons_self_of_not_mem List.not_mem_nil _
    rw [hpath, hsplit, splitOn_slashed h, List.filter_cons_of_neg (by simp), hkeep]
    simp [Function.comp_def]

def rootOf (path : String) : List Char :=
  if path.toList.head? = some '/' then ['/'] else []

theorem rootOf_cases (path : String) : rootOf path = [] ∨ rootOf path = ['/'] := by
  unfold rootOf
  split
  · exact .inr rfl
  · exact .inl rfl

theorem startOf_eq {path made : String} {names : List String} (h : ∀ name ∈ names, IsName name)
    (hmade : made.toList = rootOf path ++ slashed names) (cwd : Location) :
    startOf cwd made = startOf cwd path := by
  unfold startOf
  rw [hmade]
  unfold rootOf
  split
  · rfl
  · have hne : (slashed names).head? ≠ some '/' := by
      cases names with
      | nil => exact nofun
      | cons name names =>
          obtain ⟨hname, hslash⟩ := h name List.mem_cons_self
          obtain ⟨c, cs, hcs⟩ := List.exists_cons_of_ne_nil hname
          rw [hcs] at hslash
          have hc : c ≠ '/' := fun heq => hslash (heq ▸ List.mem_cons_self)
          simpa [slashed, hcs] using hc
    rw [List.nil_append, if_neg hne]

/-! ## Walking -/

namespace FileSystem

variable {fs fs' : FileSystem} {uid : Uid} {loc start : Location} {name : String}
  {names : List String} {cwd : Location} {path : String}

/-- Nothing has gone or changed. -/
def Kept (fs fs' : FileSystem) : Prop :=
  ∀ loc node, fs.nodes.lookup loc = some node → fs'.nodes.lookup loc = some node

/-- A folder in which the user may make entries. -/
def MayMake (fs : FileSystem) (uid : Uid) (loc : Location) : Prop :=
  ∃ search write, fs.nodes.lookup loc = some (.folder search write) ∧ write uid = true

/-- The user can walk to the folder of the last name, and there is an entry of that name. -/
def HasPath (fs : FileSystem) (uid : Uid) (start : Location) (names : List String) : Prop :=
  ∀ front last, names = front ++ [last] →
    ∃ loc, fs.walk uid start front = .ok loc ∧ fs.nodes.lookup (below loc last) ≠ none

theorem Kept.refl (fs : FileSystem) : fs.Kept fs := fun _ _ h => h

theorem Kept.trans {fs'' : FileSystem} (h : fs.Kept fs') (h' : fs'.Kept fs'') : fs.Kept fs'' :=
  fun loc node hnode => h' loc node (h loc node hnode)

theorem lookup_eq_of_kept (h : fs.Kept fs') (hsome : fs.nodes.lookup loc ≠ none) :
    fs'.nodes.lookup loc = fs.nodes.lookup loc := by
  obtain ⟨node, hnode⟩ := Option.ne_none_iff_exists'.mp hsome
  rw [hnode]
  exact h loc node hnode

theorem MayMake.of_kept (h : fs.MayMake uid loc) (hkept : fs.Kept fs') : fs'.MayMake uid loc := by
  obtain ⟨search, write, hnode, hwrite⟩ := h
  exact ⟨search, write, hkept loc _ hnode, hwrite⟩

theorem lookup_ne_none_of_enter (h : fs.enter uid loc ≠ .error .enoent) :
    fs.nodes.lookup loc ≠ none := by
  intro hnone
  apply h
  rw [enter, hnone]

theorem enter_ne_enoent (h : fs.nodes.lookup loc ≠ none) : fs.enter uid loc ≠ .error .enoent := by
  obtain ⟨node, hnode⟩ := Option.ne_none_iff_exists'.mp h
  rw [enter, hnode]
  cases node with
  | file => exact nofun
  | folder search write =>
      dsimp only
      split <;> exact nofun

theorem enter_of_kept (h : fs.Kept fs') (hfound : fs.enter uid loc ≠ .error .enoent) :
    fs'.enter uid loc = fs.enter uid loc := by
  unfold enter
  rw [lookup_eq_of_kept h (lookup_ne_none_of_enter hfound)]

theorem enter_ok {loc' : Location} (h : fs.enter uid loc = .ok loc') :
    loc' = loc ∧ ∃ search write, fs.nodes.lookup loc = some (.folder search write) := by
  unfold enter at h
  split at h
  case h_1 | h_2 => cases h
  case h_3 search write hnode =>
    split at h
    · exact ⟨(Except.ok.inj h).symm, search, write, hnode⟩
    · cases h

theorem walk_concat (fs : FileSystem) (uid : Uid) (start : Location) (names : List String)
    (name : String) : fs.walk uid start (names ++ [name]) =
      (fs.walk uid start names).bind fun loc => fs.enter uid (below loc name) := by
  unfold walk
  cases fs.enter uid start with
  | error e => rfl
  | ok loc =>
      show (names ++ [name]).foldlM (fun loc name => fs.enter uid (below loc name)) loc =
        (names.foldlM (fun loc name => fs.enter uid (below loc name)) loc).bind
          fun loc => fs.enter uid (below loc name)
      simp only [List.foldlM_append, List.foldlM_cons, List.foldlM_nil, bind_pure]
      rfl

theorem walk_ok (h : fs.walk uid start names = .ok loc) :
    ∃ search write, fs.nodes.lookup loc = some (.folder search write) := by
  rcases List.eq_nil_or_concat names with rfl | ⟨front, last, rfl⟩
  · have henter : fs.enter uid start = .ok loc := by
      unfold walk at h
      cases hstart : fs.enter uid start with
      | error e => rw [hstart] at h; cases h
      | ok loc' => rw [hstart] at h; exact h
    obtain ⟨rfl, hnode⟩ := enter_ok henter
    exact hnode
  · rw [List.concat_eq_append, walk_concat] at h
    cases hwalk : fs.walk uid start front with
    | error e => rw [hwalk] at h; cases h
    | ok loc' =>
        rw [hwalk] at h
        obtain ⟨rfl, hnode⟩ := enter_ok h
        exact hnode

/-- A walk that finds every entry it asks for takes the same way in a tree that grew. -/
theorem walk_of_kept (h : fs.Kept fs') (hfound : fs.walk uid start names ≠ .error .enoent) :
    fs'.walk uid start names = fs.walk uid start names := by
  induction names using List.reverseRecOn with
  | nil =>
      have henter : fs.enter uid start ≠ .error .enoent := by
        intro hnone
        apply hfound
        unfold walk
        rw [hnone]
        rfl
      unfold walk
      rw [enter_of_kept h henter]
      cases fs.enter uid start <;> rfl
  | append_singleton names name ih =>
      rw [walk_concat] at hfound
      have hfront : fs.walk uid start names ≠ .error .enoent := by
        intro hnone
        rw [hnone] at hfound
        exact hfound rfl
      rw [walk_concat, walk_concat, ih hfront]
      cases hwalk : fs.walk uid start names with
      | error e => rfl
      | ok loc =>
          rw [hwalk] at hfound
          exact enter_of_kept h hfound

theorem walk_ok_of_kept (h : fs.Kept fs') (hwalk : fs.walk uid start names = .ok loc) :
    fs'.walk uid start names = .ok loc := by
  rw [← hwalk]
  exact walk_of_kept h (by rw [hwalk]; exact nofun)

theorem enter_ne_eexist (fs : FileSystem) (uid : Uid) (loc : Location) :
    fs.enter uid loc ≠ .error .eexist := by
  unfold enter
  split
  case h_1 | h_2 => exact nofun
  case h_3 => split <;> exact nofun

theorem walk_ne_eexist (fs : FileSystem) (uid : Uid) (start : Location) (names : List String) :
    fs.walk uid start names ≠ .error .eexist := by
  induction names using List.reverseRecOn with
  | nil =>
      have henter := fs.enter_ne_eexist uid start
      unfold walk
      cases hfirst : fs.enter uid start with
      | error e => rwa [hfirst] at henter
      | ok loc => exact nofun
  | append_singleton names name ih =>
      rw [walk_concat]
      cases hwalk : fs.walk uid start names with
      | error e => rwa [hwalk] at ih
      | ok loc => exact fs.enter_ne_eexist uid (below loc name)

theorem hasPath_concat (hwalk : fs.walk uid start names = .ok loc)
    (hentry : fs.nodes.lookup (below loc name) ≠ none) :
    fs.HasPath uid start (names ++ [name]) := by
  intro front last heq
  obtain ⟨rfl, hlast⟩ := List.append_inj' heq rfl
  obtain ⟨rfl, -⟩ := List.cons.inj hlast
  exact ⟨loc, hwalk, hentry⟩

theorem HasPath.of_kept (h : fs.HasPath uid start names) (hkept : fs.Kept fs') :
    fs'.HasPath uid start names := by
  intro front last heq
  obtain ⟨loc, hwalk, hentry⟩ := h front last heq
  exact ⟨loc, walk_ok_of_kept hkept hwalk, by rwa [lookup_eq_of_kept hkept hentry]⟩

theorem HasPath.walk_ne_enoent (h : fs.HasPath uid start names)
    (hstart : fs.nodes.lookup start ≠ none) : fs.walk uid start names ≠ .error .enoent := by
  rcases List.eq_nil_or_concat names with rfl | ⟨front, last, rfl⟩
  · have henter : fs.enter uid start ≠ .error .enoent := enter_ne_enoent hstart
    unfold walk
    cases hfirst : fs.enter uid start with
    | error e => rwa [hfirst] at henter
    | ok loc => exact nofun
  · rw [List.concat_eq_append] at h ⊢
    obtain ⟨loc, hwalk, hentry⟩ := h front last rfl
    rw [walk_concat, hwalk]
    exact enter_ne_enoent hentry

/-! ## `mkdir` -/

theorem lookup_below_of_dots (hloc : (fs.nodes.lookup loc).isSome)
    (hdots : name = "." ∨ name = "..") : fs.nodes.lookup (below loc name) ≠ none := by
  have hroot : fs.nodes.lookup [] ≠ none := by
    intro hnone
    have hrooted := fs.rooted
    rw [hnone] at hrooted
    cases hrooted
  rcases hdots with rfl | rfl
  · have hbelow : below loc "." = loc := rfl
    rw [hbelow]
    exact Option.isSome_iff_ne_none.mp hloc
  · have hbelow : below loc ".." = loc.tail := rfl
    rw [hbelow]
    cases loc with
    | nil => exact hroot
    | cons last rest =>
        intro hnone
        have hparent := fs.closed last rest hloc
        rw [List.tail_cons] at hnone
        rw [hnone] at hparent
        cases hparent

theorem mkdir_of_walk_error {e : Errno} (hpath : components path = names ++ [name])
    (hwalk : fs.walk uid (startOf cwd path) names = .error e) :
    fs.mkdir uid cwd path = .error e := by
  unfold mkdir
  rw [hpath, List.getLast?_concat, List.dropLast_concat]
  simp only [hwalk]

theorem mkdir_of_walk_ok (hpath : components path = names ++ [name])
    (hwalk : fs.walk uid (startOf cwd path) names = .ok loc) :
    (fs.nodes.lookup (below loc name) ≠ none ∧ fs.mkdir uid cwd path = .error .eexist) ∨
      (below loc name = name :: loc ∧ fs.nodes.lookup (name :: loc) = none ∧
        ((fs.MayMake uid loc ∧ ∃ fs', fs.mkdir uid cwd path = .ok fs' ∧
            fs'.nodes = fs.nodes.insert (name :: loc) (.made uid)) ∨
          (¬ fs.MayMake uid loc ∧ fs.mkdir uid cwd path = .error .eacces))) := by
  obtain ⟨search, write, hloc⟩ := walk_ok hwalk
  unfold mkdir
  rw [hpath, List.getLast?_concat, List.dropLast_concat]
  simp only [hwalk]
  by_cases hdots : name = "." ∨ name = ".."
  · left
    rw [if_pos hdots]
    exact ⟨lookup_below_of_dots (by rw [hloc]; rfl) hdots, rfl⟩
  · have hbelow : below loc name = name :: loc := by
      rw [below, if_neg fun h => hdots (.inl h), if_neg fun h => hdots (.inr h)]
    rw [if_neg hdots, hbelow]
    by_cases hfree : fs.nodes.lookup (name :: loc) = none
    · right
      rw [dif_pos hfree]
      refine ⟨rfl, hfree, ?_⟩
      split
      case h_1 search' write' hparent =>
        obtain ⟨rfl, rfl⟩ := Node.folder.inj (Option.some.inj (hloc.symm.trans hparent))
        by_cases hwrite : write uid = true
        · rw [if_pos hwrite]
          exact .inl ⟨⟨search, write, hloc, hwrite⟩, _, rfl, rfl⟩
        · rw [if_neg hwrite]
          refine .inr ⟨?_, rfl⟩
          rintro ⟨search', write', hnode, hwrite'⟩
          obtain ⟨rfl, rfl⟩ := Node.folder.inj (Option.some.inj (hloc.symm.trans hnode))
          exact hwrite hwrite'
      case h_2 hother => exact absurd hloc (hother search write)
    · left
      rw [dif_neg hfree]
      exact ⟨hfree, rfl⟩

theorem kept_of_insert {node : Node} (hfree : fs.nodes.lookup loc = none)
    (hnodes : fs'.nodes = fs.nodes.insert loc node) : fs.Kept fs' := by
  intro loc' node' hnode'
  rw [hnodes, AList.lookup_insert_ne]
  · exact hnode'
  · rintro rfl
    rw [hfree] at hnode'
    cases hnode'

/-- The same `mkdir` in a tree and in one that others of the same user have let grow: the
answers differ only where somebody else has made the folder, and then both count as made. -/
theorem mkdir_agree (hkept : fs.Kept fs') (hpath : components path = names ++ [name])
    (hfound : fs.walk uid (startOf cwd path) names ≠ .error .enoent)
    (hothers : ∀ loc, fs.nodes.lookup (name :: loc) = none →
      fs'.nodes.lookup (name :: loc) ≠ none →
        fs'.nodes.lookup (name :: loc) = some (.made uid) ∧ fs'.MayMake uid loc) :
    (∃ e, fs.mkdir uid cwd path = .error e ∧ fs'.mkdir uid cwd path = .error e ∧
      (e = .eexist → fs.HasPath uid (startOf cwd path) (names ++ [name]))) ∨
    ∃ loc made, fs.MayMake uid loc ∧ fs.nodes.lookup (name :: loc) = none ∧
      fs.mkdir uid cwd path = .ok made ∧
      made.nodes = fs.nodes.insert (name :: loc) (.made uid) ∧
      made.HasPath uid (startOf cwd path) (names ++ [name]) ∧
      ((fs'.mkdir uid cwd path = .error .eexist ∧
          fs'.nodes.lookup (name :: loc) = some (.made uid)) ∨
        ∃ made', fs'.mkdir uid cwd path = .ok made' ∧ fs'.nodes.lookup (name :: loc) = none ∧
          made'.nodes = fs'.nodes.insert (name :: loc) (.made uid)) := by
  have hsame := walk_of_kept hkept hfound
  cases hwalk : fs.walk uid (startOf cwd path) names with
  | error e =>
      left
      rw [hwalk] at hsame hfound
      refine ⟨e, mkdir_of_walk_error hpath hwalk, mkdir_of_walk_error hpath hsame, fun he => ?_⟩
      rw [he] at hwalk
      exact absurd hwalk (walk_ne_eexist fs uid _ _)
  | ok loc =>
      rw [hwalk] at hsame
      obtain ⟨search, write, hloc⟩ := walk_ok hwalk
      -- both trees have the same folder there
      have hmay : fs'.MayMake uid loc ↔ fs.MayMake uid loc := by
        unfold MayMake
        rw [lookup_eq_of_kept hkept (by rw [hloc]; exact nofun)]
      rcases mkdir_of_walk_ok hpath hwalk with
        ⟨hsome, hmkdir⟩ | ⟨hbelow, hfree, ⟨hparent, made, hmkdir, hnodes⟩ | ⟨hparent, hmkdir⟩⟩
      · -- there was an entry before, and nobody takes it away
        left
        rcases mkdir_of_walk_ok hpath hsame with ⟨-, hmkdir'⟩ | ⟨hbelow, hfree', -⟩
        · exact ⟨.eexist, hmkdir, hmkdir', fun _ => hasPath_concat hwalk hsome⟩
        · rw [← hbelow, lookup_eq_of_kept hkept hsome] at hfree'
          exact absurd hfree' hsome
      · -- alone it makes the folder; together somebody else may have done so
        right
        have hgrown : fs.Kept made := kept_of_insert hfree hnodes
        have hmade : made.nodes.lookup (below loc name) ≠ none := by
          rw [hbelow, hnodes, AList.lookup_insert]
          exact nofun
        refine ⟨loc, made, hparent, hfree, hmkdir, hnodes,
          hasPath_concat (walk_ok_of_kept hgrown hwalk) hmade, ?_⟩
        rcases mkdir_of_walk_ok hpath hsame with
          ⟨hsome', hmkdir'⟩ | ⟨-, hfree', ⟨-, made', hmkdir', hnodes'⟩ | ⟨hparent', -⟩⟩
        · rw [hbelow] at hsome'
          exact .inl ⟨hmkdir', (hothers loc hfree hsome').1⟩
        · exact .inr ⟨made', hmkdir', hfree', hnodes'⟩
        · exact absurd (hmay.mpr hparent) hparent'
      · -- it may not make the folder, and so may nobody else
        left
        refine ⟨.eacces, hmkdir, ?_, nofun⟩
        rcases mkdir_of_walk_ok hpath hsame with
          ⟨hsome', -⟩ | ⟨-, -, ⟨hother, -⟩ | ⟨-, hmkdir'⟩⟩
        · rw [hbelow] at hsome'
          exact absurd (hmay.mp (hothers loc hfree hsome').2) hparent
        · exact absurd (hmay.mp hother) hparent
        · exact hmkdir'

end FileSystem

/-! ## One round -/

namespace Maker

structure Done (path : String) (done : List String) (maker : Maker) : Prop where
  current : maker.current.toList = rootOf path ++ slashed done
  split : done ++ maker.tokens = components path

theorem done_start (path : String) : Done path [] (start path) where
  current := by
    unfold start rootOf
    simp only
    split <;> rfl
  split := rfl

variable {path : String} {done : List String} {maker : Maker} {token : String}
  {tokens : List String}

theorem Done.isName (h : Done path done maker) : ∀ name ∈ done ++ maker.tokens, IsName name := by
  rw [h.split]
  exact fun _ => isName_of_mem_components

theorem Done.next (h : Done path done maker) (htokens : maker.tokens = token :: tokens)
    (failed : Option (String × Errno)) :
    Done path (done ++ [token]) ⟨maker.current ++ token ++ "/", tokens, failed⟩ where
  current := by
    have hslash : "/".toList = ['/'] := rfl
    simp [h.current, slashed, hslash]
  split := by
    rw [List.append_assoc, ← h.split, htokens]
    rfl

theorem Done.components_eq (h : Done path done maker) (htokens : maker.tokens = token :: tokens) :
    components (maker.current ++ token ++ "/") = done ++ [token] := by
  have hnext := h.next htokens none
  refine components_of_slashed ?_ (rootOf_cases path) hnext.current
  intro name hname
  apply hnext.isName
  exact List.mem_append_left _ hname

theorem Done.startOf_eq (h : Done path done maker) (htokens : maker.tokens = token :: tokens)
    (cwd : Location) : startOf cwd (maker.current ++ token ++ "/") = startOf cwd path := by
  have hnext := h.next htokens none
  refine TraCR.startOf_eq ?_ hnext.current cwd
  intro name hname
  apply hnext.isName
  exact List.mem_append_left _ hname

theorem returned_true (h : maker.returned = some true) :
    maker.failed = none ∧ maker.tokens = [] := by
  unfold returned at h
  split at h
  · cases h
  next hfailed htokens =>
    exact ⟨hfailed, htokens⟩
  · cases h

def remaining (maker : Maker) : Nat := if maker.failed = none then maker.tokens.length else 0

theorem returned_of_remaining (h : maker.remaining = 0) :
    maker.returned = some true ∨ maker.returned = some false := by
  unfold remaining at h
  unfold returned
  cases hfailed : maker.failed with
  | some _ => exact .inr rfl
  | none =>
      rw [if_pos hfailed, List.length_eq_zero_iff] at h
      rw [h]
      exact .inl rfl

section Round

variable {uid : Uid} {cwd : Location} {fs : FileSystem}

theorem round_of_ended (h : maker.failed ≠ none ∨ maker.tokens = []) (turn : Unit) :
    round uid cwd maker fs turn = (none, maker, fs) := by
  unfold round
  split
  case h_1 hfailed htokens =>
    rcases h with h | h
    · exact absurd hfailed h
    · rw [htokens] at h
      cases h
  case h_2 => rfl

variable (hfailed : maker.failed = none) (htokens : maker.tokens = token :: tokens)

include hfailed htokens

theorem round_of_ok {made : FileSystem}
    (h : fs.mkdir uid cwd (maker.current ++ token ++ "/") = .ok made) (turn : Unit) :
    round uid cwd maker fs turn = (none, ⟨maker.current ++ token ++ "/", tokens, none⟩, made) := by
  unfold round
  simp only [hfailed, htokens, h]

theorem round_of_eexist (h : fs.mkdir uid cwd (maker.current ++ token ++ "/") = .error .eexist)
    (turn : Unit) :
    round uid cwd maker fs turn = (none, ⟨maker.current ++ token ++ "/", tokens, none⟩, fs) := by
  unfold round
  simp only [hfailed, htokens, h]

theorem round_of_error {e : Errno} (hne : e ≠ .eexist)
    (h : fs.mkdir uid cwd (maker.current ++ token ++ "/") = .error e) (turn : Unit) :
    round uid cwd maker fs turn =
      (some (maker.current ++ token ++ "/", e),
        ⟨maker.current ++ token ++ "/", tokens, some (maker.current ++ token ++ "/", e)⟩, fs) := by
  unfold round
  cases e with
  | eexist => exact absurd rfl hne
  | enoent | enotdir | eacces => simp only [hfailed, htokens, h]

omit hfailed htokens in
theorem remaining_round (maker : Maker) (fs : FileSystem) (turn : Unit) :
    (round uid cwd maker fs turn).2.1.remaining ≤ maker.remaining - 1 := by
  by_cases hended : maker.failed ≠ none ∨ maker.tokens = []
  · have hzero : maker.remaining = 0 := by
      unfold remaining
      rcases hended with hfailed | hnil
      · rw [if_neg hfailed]
      · rw [hnil]
        split <;> rfl
    rw [round_of_ended hended, hzero]
  · obtain ⟨hfailed, htokens⟩ := not_or.mp hended
    have hfailed := not_not.mp hfailed
    obtain ⟨token, tokens, htokens⟩ := List.exists_cons_of_ne_nil htokens
    have hone : maker.remaining - 1 = tokens.length := by
      simp [remaining, hfailed, htokens]
    cases hmkdir : fs.mkdir uid cwd (maker.current ++ token ++ "/") with
    | ok made =>
        rw [round_of_ok hfailed htokens hmkdir, hone]
        simp [remaining]
    | error e =>
        by_cases he : e = .eexist
        · rw [he] at hmkdir
          rw [round_of_eexist hfailed htokens hmkdir, hone]
          simp [remaining]
        · rw [round_of_error hfailed htokens he hmkdir]
          simp [remaining]

end Round

theorem returned_alone {ι : Type} [DecidableEq ι] {uid : Uid} {cwd : ι → Location} (i : ι)
    (turns : List Unit) (maker : Maker) (fs : FileSystem)
    (h : maker.remaining ≤ turns.length) :
    (alone (fun i => round uid (cwd i)) i maker fs turns).2.1.remaining = 0 := by
  induction turns generalizing maker fs with
  | nil => exact Nat.le_zero.mp h
  | cons turn turns ih =>
      have hround := @remaining_round uid (cwd i) maker fs turn
      rw [List.length_cons] at h
      exact ih _ _ (hround.trans (by omega))

end Maker

/-! ## All rounds -/

/-- A process starts from a folder: its working folder, or the root. -/
def HasStart (fs : FileSystem) (cwd : Location) : Prop := (fs.nodes.lookup cwd).any Node.isFolder

theorem lookup_startOf_of_hasStart {fs : FileSystem} {cwd : Location} (h : HasStart fs cwd)
    (path : String) : fs.nodes.lookup (startOf cwd path) ≠ none := by
  have hstart : (fs.nodes.lookup (startOf cwd path)).any Node.isFolder := by
    by_cases hroot : path.toList.head? = some '/'
    · rw [startOf, if_pos hroot]
      exact fs.rooted
    · rw [startOf, if_neg hroot]
      exact h
  intro hnone
  rw [hnone] at hstart
  cases hstart

section Race

variable {ι : Type} {uid : Uid} {cwd : ι → Location} {paths : ι → String} {first : FileSystem}

/-- Each maker is as far as it would be alone in a tree of its own.  The shared tree has what
was there at first and what the makers have made, which are folders of their user. -/
structure SameAnswers (uid : Uid) (first : FileSystem) (cwd : ι → Location) (paths : ι → String)
    (makers : ι → Maker) (owned : ι → FileSystem) (fs : FileSystem) : Prop where
  stays : first.Kept fs
  grown : ∀ i, first.Kept (owned i)
  kept : ∀ i, (owned i).Kept fs
  covered : ∀ loc node, fs.nodes.lookup loc = some node →
    first.nodes.lookup loc = some node ∨ ∃ i, (owned i).nodes.lookup loc = some node
  made : ∀ i name loc, first.nodes.lookup (name :: loc) = none →
    (owned i).nodes.lookup (name :: loc) ≠ none →
      (owned i).nodes.lookup (name :: loc) = some (.made uid) ∧ (owned i).MayMake uid loc
  started : ∀ i, first.nodes.lookup (startOf (cwd i) (paths i)) ≠ none
  progress : ∀ i, ∃ done, (makers i).Done (paths i) done ∧
    ((makers i).failed = none → (owned i).HasPath uid (startOf (cwd i) (paths i)) done)

theorem sameAnswers_start (hstart : ∀ i, HasStart first (cwd i)) :
    SameAnswers uid first cwd paths (fun i => .start (paths i)) (fun _ => first) first where
  stays := .refl first
  grown _ := .refl first
  kept _ := .refl first
  covered _ _ h := .inl h
  made _ _ _ hnone hsome := absurd hnone hsome
  started i := lookup_startOf_of_hasStart (hstart i) (paths i)
  progress i := ⟨[], Maker.done_start (paths i), fun _ front last hnil => by simp at hnil⟩

variable {makers : ι → Maker} {owned : ι → FileSystem} {fs : FileSystem}

theorem SameAnswers.others (h : SameAnswers uid first cwd paths makers owned fs) (i : ι)
    (name : String) (loc : Location) (hnone : (owned i).nodes.lookup (name :: loc) = none)
    (hsome : fs.nodes.lookup (name :: loc) ≠ none) :
    fs.nodes.lookup (name :: loc) = some (.made uid) ∧ fs.MayMake uid loc := by
  have hfirst : first.nodes.lookup (name :: loc) = none := by
    by_contra hne
    rw [← FileSystem.lookup_eq_of_kept (h.grown i) hne] at hne
    exact hne hnone
  obtain ⟨node, hnode⟩ := Option.ne_none_iff_exists'.mp hsome
  rcases h.covered _ _ hnode with hother | ⟨j, hj⟩
  · rw [hfirst] at hother
    cases hother
  · obtain ⟨hmade, hparent⟩ := h.made j name loc hfirst (by rw [hj]; exact nofun)
    exact ⟨h.kept j _ _ hmade, hparent.of_kept (h.kept j)⟩

theorem SameAnswers.found (h : SameAnswers uid first cwd paths makers owned fs) {i : ι}
    {done : List String} (hpath : (owned i).HasPath uid (startOf (cwd i) (paths i)) done) :
    (owned i).walk uid (startOf (cwd i) (paths i)) done ≠ .error .enoent := by
  refine hpath.walk_ne_enoent ?_
  rw [FileSystem.lookup_eq_of_kept (h.grown i) (h.started i)]
  exact h.started i

theorem SameAnswers.hasPath (h : SameAnswers uid first cwd paths makers owned fs) {i : ι}
    (hreturned : (makers i).returned = some true) :
    (owned i).HasPath uid (startOf (cwd i) (paths i)) (components (paths i)) := by
  obtain ⟨done, hdone, hpath⟩ := h.progress i
  obtain ⟨hfailed, htokens⟩ := Maker.returned_true hreturned
  have hall : done = components (paths i) := by
    rw [← hdone.split, htokens, List.append_nil]
  rw [← hall]
  exact hpath hfailed

variable [DecidableEq ι]

theorem SameAnswers.update (h : SameAnswers uid first cwd paths makers owned fs) {i : ι}
    {maker : Maker} {own fs' : FileSystem} (hgrown : (owned i).Kept own) (hfs : fs.Kept fs')
    (hkept : own.Kept fs')
    (hcovered : ∀ loc node, fs'.nodes.lookup loc = some node →
      fs.nodes.lookup loc = some node ∨ own.nodes.lookup loc = some node)
    (hmade : ∀ name loc, first.nodes.lookup (name :: loc) = none →
      own.nodes.lookup (name :: loc) ≠ none →
        own.nodes.lookup (name :: loc) = some (.made uid) ∧ own.MayMake uid loc)
    {done : List String} (hdone : maker.Done (paths i) done)
    (hpath : maker.failed = none → own.HasPath uid (startOf (cwd i) (paths i)) done) :
    SameAnswers uid first cwd paths (Function.update makers i maker)
      (Function.update owned i own) fs' where
  stays := h.stays.trans hfs
  started := h.started
  grown := (Function.forall_update_iff owned fun _ tree => first.Kept tree).mpr
    ⟨(h.grown i).trans hgrown, fun j _ => h.grown j⟩
  kept := (Function.forall_update_iff owned fun _ tree => tree.Kept fs').mpr
    ⟨hkept, fun j _ => (h.kept j).trans hfs⟩
  covered loc node hnode := by
    rcases hcovered loc node hnode with hold | hown
    · rcases h.covered loc node hold with hfirst | ⟨j, hj⟩
      · exact .inl hfirst
      · right
        by_cases hji : j = i
        · subst hji
          exact ⟨j, by rw [Function.update_self]; exact hgrown loc node hj⟩
        · exact ⟨j, by rw [Function.update_of_ne hji]; exact hj⟩
    · exact .inr ⟨i, by rw [Function.update_self]; exact hown⟩
  made := (Function.forall_update_iff owned fun _ tree => ∀ name loc,
      first.nodes.lookup (name :: loc) = none → tree.nodes.lookup (name :: loc) ≠ none →
        tree.nodes.lookup (name :: loc) = some (.made uid) ∧ tree.MayMake uid loc).mpr
    ⟨hmade, fun j _ => h.made j⟩
  progress j := by
    by_cases hj : j = i
    · subst hj
      rw [Function.update_self, Function.update_self]
      exact ⟨done, hdone, hpath⟩
    · rw [Function.update_of_ne hj, Function.update_of_ne hj]
      exact h.progress j

/-- A round gives the same answer in the shared tree as in the maker's own, and keeps it so. -/
theorem SameAnswers.round (h : SameAnswers uid first cwd paths makers owned fs) (i : ι)
    (turn : Unit) :
    ((makers i).round uid (cwd i) (owned i) turn).1 =
        ((makers i).round uid (cwd i) fs turn).1 ∧
      ((makers i).round uid (cwd i) (owned i) turn).2.1 =
        ((makers i).round uid (cwd i) fs turn).2.1 ∧
      SameAnswers uid first cwd paths
        (Function.update makers i ((makers i).round uid (cwd i) fs turn).2.1)
        (Function.update owned i ((makers i).round uid (cwd i) (owned i) turn).2.2)
        ((makers i).round uid (cwd i) fs turn).2.2 := by
  obtain ⟨done, hdone, hpath⟩ := h.progress i
  by_cases hended : (makers i).failed ≠ none ∨ (makers i).tokens = []
  · rw [Maker.round_of_ended hended, Maker.round_of_ended hended]
    refine ⟨rfl, rfl, ?_⟩
    simp only [Function.update_eq_self]
    exact h
  obtain ⟨hfailed, htokens⟩ := not_or.mp hended
  have hfailed := not_not.mp hfailed
  obtain ⟨token, tokens, htokens⟩ := List.exists_cons_of_ne_nil htokens
  have hcomponents := hdone.components_eq htokens
  have hstart := hdone.startOf_eq htokens (cwd i)
  have hagree := @FileSystem.mkdir_agree _ _ uid _ _ (cwd i) _ (h.kept i) hcomponents
    (by rw [hstart]; exact h.found (hpath hfailed)) (h.others i token)
  rw [hstart] at hagree
  rcases hagree with ⟨e, hown, hshared, hthere⟩ |
    ⟨loc, made, hparent, hfree, hown, hnodes, hthere, hshared⟩
  · -- nobody makes a folder
    by_cases he : e = .eexist
    · rw [he] at hown hshared
      rw [Maker.round_of_eexist hfailed htokens hown, Maker.round_of_eexist hfailed htokens hshared]
      exact ⟨rfl, rfl, h.update (.refl _) (.refl _) (h.kept i)
        (fun _ _ hnode => .inl hnode) (h.made i) (hdone.next htokens none) fun _ => hthere he⟩
    · rw [Maker.round_of_error hfailed htokens he hown,
        Maker.round_of_error hfailed htokens he hshared]
      exact ⟨rfl, rfl, h.update (.refl _) (.refl _) (h.kept i)
        (fun _ _ hnode => .inl hnode) (h.made i) (hdone.next htokens _) nofun⟩
  · have hgrown : (owned i).Kept made := FileSystem.kept_of_insert hfree hnodes
    have hmade : ∀ name loc, first.nodes.lookup (name :: loc) = none →
        made.nodes.lookup (name :: loc) ≠ none →
          made.nodes.lookup (name :: loc) = some (.made uid) ∧ made.MayMake uid loc := by
      intro name loc' hnone hsome
      by_cases hnew : name :: loc' = token :: loc
      · obtain ⟨rfl, rfl⟩ := List.cons.inj hnew
        exact ⟨by rw [hnodes, AList.lookup_insert], hparent.of_kept hgrown⟩
      · rw [hnodes, AList.lookup_insert_ne hnew] at hsome
        obtain ⟨hold, hold'⟩ := h.made i name loc' hnone hsome
        exact ⟨hgrown _ _ hold, hold'.of_kept hgrown⟩
    rcases hshared with ⟨hshared, hshown⟩ | ⟨made', hshared, hfree', hnodes'⟩
    · -- somebody else was faster
      rw [Maker.round_of_ok hfailed htokens hown, Maker.round_of_eexist hfailed htokens hshared]
      refine ⟨rfl, rfl, h.update hgrown (.refl _) ?_ (fun _ _ hnode => .inl hnode)
        hmade (hdone.next htokens none) fun _ => hthere⟩
      intro loc' node hnode
      by_cases hnew : loc' = token :: loc
      · rw [hnew, hnodes, AList.lookup_insert] at hnode
        rw [hnew, hshown, hnode]
      · rw [hnodes, AList.lookup_insert_ne hnew] at hnode
        exact h.kept i _ _ hnode
    · -- the folder is new to everybody
      have hfs : fs.Kept made' := FileSystem.kept_of_insert hfree' hnodes'
      rw [Maker.round_of_ok hfailed htokens hown, Maker.round_of_ok hfailed htokens hshared]
      refine ⟨rfl, rfl, h.update hgrown hfs ?_ ?_ hmade (hdone.next htokens none) fun _ => hthere⟩
      · intro loc' node hnode
        by_cases hnew : loc' = token :: loc
        · rwa [hnew, hnodes', AList.lookup_insert, ← AList.lookup_insert (owned i).nodes,
            ← hnodes, ← hnew]
        · rw [hnodes, AList.lookup_insert_ne hnew] at hnode
          exact hfs _ _ (h.kept i _ _ hnode)
      · intro loc' node hnode
        by_cases hnew : loc' = token :: loc
        · right
          rw [hnew, hnodes', AList.lookup_insert] at hnode
          rw [hnew, hnodes, AList.lookup_insert, hnode]
        · left
          rwa [hnodes', AList.lookup_insert_ne hnew] at hnode

/-- After any turns the makers are as far as they would be alone. -/
theorem exists_sameAnswers (hstart : ∀ i, HasStart first (cwd i)) (turns : List (Unit × ι)) :
    let out := together (fun i => Maker.round uid (cwd i)) (fun i => .start (paths i)) first turns
    ∃ owned : ι → FileSystem,
      (∀ i, alone (fun i => Maker.round uid (cwd i)) i (.start (paths i)) first
        (source i turns) = (source i out.1, out.2.1 i, owned i)) ∧
      SameAnswers uid first cwd paths out.2.1 owned out.2.2 :=
  @together_of_step ι Unit (Option (String × Errno)) FileSystem _ (fun _ => Maker)
    (fun i => Maker.round uid (cwd i)) (SameAnswers uid first cwd paths)
    (fun _ _ _ h i turn => h.round i turn) _ _ _ (sameAnswers_start hstart) turns

/-- At every point of every interleaving of their `mkdir` calls, each process of a user has
reported and made what it would have alone in the tree as it was at first.  The shared tree
holds what was there at first and what each of them would have made alone, and a process
whose loop has returned true can walk along its path to an entry of the last name. -/
theorem folders_as_alone (hstart : ∀ i, HasStart first (cwd i)) (turns : List (Unit × ι)) :
    let out := together (fun i => Maker.round uid (cwd i)) (fun i => .start (paths i)) first turns
    ∃ owned : ι → FileSystem,
      (∀ i, alone (fun i => Maker.round uid (cwd i)) i (.start (paths i)) first
        (source i turns) = (source i out.1, out.2.1 i, owned i)) ∧
      (∀ loc node, out.2.2.nodes.lookup loc = some node ↔ first.nodes.lookup loc = some node ∨
        ∃ i, (owned i).nodes.lookup loc = some node) ∧
      ∀ i, (out.2.1 i).returned = some true →
        ∀ names last, components (paths i) = names ++ [last] →
          ∃ loc, out.2.2.walk uid (startOf (cwd i) (paths i)) names = .ok loc ∧
            out.2.2.nodes.lookup (below loc last) ≠ none := by
  obtain ⟨owned, halone, hlast⟩ := exists_sameAnswers hstart turns
  refine ⟨owned, halone, fun loc node => ⟨hlast.covered loc node, ?_⟩,
    fun i hreturned => (hlast.hasPath hreturned).of_kept (hlast.kept i)⟩
  rintro (hnode | ⟨i, hnode⟩)
  · exact hlast.stays _ _ hnode
  · exact hlast.kept i _ _ hnode

end Race

/-! ## What `create_folder_recursive` leaves -/

/-- The proc folders of the disk are in the tree. -/
def ShowsFolders (uid : Uid) (cwd : Location) (fs : FileSystem) (disk : Disk) : Prop :=
  ∀ path : ProcPath, disk.lookup path ≠ none →
    fs.HasPath uid (startOf cwd path.text) (components path.text)

theorem ShowsFolders.of_kept {uid : Uid} {cwd : Location} {fs fs' : FileSystem} {disk : Disk}
    (h : ShowsFolders uid cwd fs disk) (hkept : fs.Kept fs') : ShowsFolders uid cwd fs' disk :=
  fun path hpath => (h path hpath).of_kept hkept

/-- The loop ends, and the model that knows proc folders only is right about it: without a
fault it has the folder whose path the loop has made, and its fault is the `mkdir` that the
loop reports. -/
theorem createFolderRecursive_of_maker {uid : Uid} {cwd : Location} {fs : FileSystem}
    {disk : Disk} (hshows : ShowsFolders uid cwd fs disk) (hstart : HasStart fs cwd)
    (proc : TraCRProc) (path : String) :
    let names := components (proc.folderText path)
    let out := alone (fun _ : Unit => Maker.round uid cwd) () (.start (proc.folderText path)) fs
      (List.replicate names.length ())
    (out.2.1.returned = some true ∧ ∃ made disk',
        proc.createFolderRecursive path disk .none = some (made, disk') ∧
          made.getFolderPath.text = proc.folderText path ∧
            ShowsFolders uid cwd out.2.2 disk') ∨
      (out.2.1.returned = some false ∧ proc.createFolderRecursive path disk .mkdir = none ∧
        ShowsFolders uid cwd out.2.2 disk) := by
  intro names out
  have hturns : source () (List.replicate names.length ((), ())) =
      List.replicate names.length () := by
    simp [source]
  obtain ⟨owned, halone, hlast⟩ := @exists_sameAnswers Unit uid (fun _ => cwd)
    (fun _ => proc.folderText path) fs _ (fun _ => hstart)
    (List.replicate names.length ((), ()))
  have hout := halone ()
  rw [hturns] at hout
  have hgrown := hlast.grown ()
  have hended : out.2.1.remaining = 0 := by
    refine Maker.returned_alone () _ _ fs ?_
    rw [List.length_replicate]
    exact le_rfl
  rcases Maker.returned_of_remaining hended with htrue | hfalse
  · left
    refine ⟨htrue, _, _, rfl, rfl, ?_⟩
    have htree : out.2.2 = owned () := congrArg (fun x => x.2.2) hout
    have hmaker : out.2.1 = _ := congrArg (fun x => x.2.1) hout
    rw [hmaker] at htrue
    have hpath := hlast.hasPath htrue
    intro other hother
    rw [htree]
    by_cases heq : other = { proc.procFolderName with base := path ++ "tracr/" }
    · rw [heq]
      exact hpath
    · rw [AList.lookup_insert_ne heq] at hother
      exact (hshows other hother).of_kept hgrown
  · right
    refine ⟨hfalse, rfl, ?_⟩
    have htree : out.2.2 = owned () := congrArg (fun x => x.2.2) hout
    rw [htree]
    exact hshows.of_kept hgrown

/-- The working folder of a user below a root that only the superuser may write to. -/
def workTree : FileSystem where
  nodes := ((∅ : Table Location Node).insert [] (.made 0)).insert ["work"] (.made 1000)
  rooted := rfl
  closed := by
    intro name loc hsome
    by_cases hwork : name :: loc = ["work"]
    · obtain ⟨-, rfl⟩ := List.cons.inj hwork
      rfl
    · rw [AList.lookup_insert_ne hwork, AList.lookup_insert_ne (by simp)] at hsome
      cases hsome

def twoProcPaths (second : Bool) : String :=
  (TraCRProc.create 0 ⟨31, by decide⟩ (cond second ⟨33, by decide⟩ ⟨32, by decide⟩)).folderText ""

/-- The second proc makes the shared folder, and both get their own below it. -/
theorem folders_as_alone_two_procs :
    let turns := [((), true), ((), false), ((), false), ((), true)]
    let out := together (fun _ => Maker.round 1000 ["work"]) (fun i => .start (twoProcPaths i))
      workTree turns
    (∃ owned : Bool → FileSystem,
      (∀ i, alone (fun _ => Maker.round 1000 ["work"]) i (.start (twoProcPaths i)) workTree
        (source i turns) = (source i out.1, out.2.1 i, owned i)) ∧
      (∀ loc node, out.2.2.nodes.lookup loc = some node ↔
        workTree.nodes.lookup loc = some node ∨ ∃ i, (owned i).nodes.lookup loc = some node) ∧
      ∀ i, (out.2.1 i).returned = some true →
        ∀ names last, components (twoProcPaths i) = names ++ [last] →
          ∃ loc, out.2.2.walk 1000 (startOf ["work"] (twoProcPaths i)) names = .ok loc ∧
            out.2.2.nodes.lookup (below loc last) ≠ none) ∧
      (∀ i, (out.2.1 i).returned = some true) ∧
      components (twoProcPaths false) = ["tracr"] ++ ["proc.32"] := by
  intro turns out
  refine ⟨@folders_as_alone Bool 1000 (fun _ => ["work"]) twoProcPaths workTree _ (fun _ => ?_)
    turns, ?_, by decide +kernel⟩
  · rfl
  · intro i
    cases i <;> decide +kernel

/-- Two users do not share a folder: the second may not make its proc folder below the one
of the first. -/
example :
    let out := together (fun i => Maker.round (cond i 0 1000) ["work"])
      (fun i => .start (twoProcPaths i)) workTree
      [((), true), ((), true), ((), false), ((), false)]
    ((out.2.1 true).returned, (out.2.1 false).returned) = (some true, some false) := by
  decide +kernel

end TraCR
