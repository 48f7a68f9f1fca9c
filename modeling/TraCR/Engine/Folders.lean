import TraCR.Engine.Proc

/-!
# Making folders

The loop of `create_folder_recursive`, one `mkdir` a round, on a file system without
links that other processes may change between the rounds.
-/

namespace TraCR

/-- The names from an entry of the file system up to the root. -/
abbrev Location := List String

/-- A user; `0` is the superuser. -/
abbrev Uid := Nat

/-- What stands at a location, and who may look into a folder and make entries in it. -/
inductive Node where
  | file
  | folder (search write : Uid → Bool)

/-- A new folder of mode 0755, where the umask takes none of these bits. -/
def Node.made (owner : Uid) : Node := .folder (fun _ => true) fun uid => uid == owner || uid == 0

def Node.isFolder : Node → Bool
  | .file => false
  | .folder _ _ => true

structure FileSystem where
  nodes : Table Location Node
  rooted : (nodes.lookup []).any Node.isFolder
  closed : ∀ name loc, (nodes.lookup (name :: loc)).isSome → (nodes.lookup loc).any Node.isFolder

inductive Errno where
  | eexist
  | enoent
  | enotdir
  | eacces
deriving DecidableEq, Repr

def components (path : String) : List String :=
  ((path.toList.splitOn '/').filter fun name => !name.isEmpty).map String.ofList

def startOf (cwd : Location) (path : String) : Location :=
  if path.toList.head? = some '/' then [] else cwd

def below (loc : Location) (name : String) : Location :=
  if name = "." then loc
  else if name = ".." then loc.tail
  else name :: loc

namespace FileSystem

def enter (fs : FileSystem) (uid : Uid) (loc : Location) : Except Errno Location :=
  match fs.nodes.lookup loc with
  | none => .error .enoent
  | some .file => .error .enotdir
  | some (.folder search _) => if search uid then .ok loc else .error .eacces

def walk (fs : FileSystem) (uid : Uid) (start : Location) (names : List String) :
    Except Errno Location := do
  let loc ← fs.enter uid start
  names.foldlM (fun loc name => fs.enter uid (below loc name)) loc

theorem closed_insert {nodes : Table Location Node} {loc : Location} {name : String} {node : Node}
    (hfree : nodes.lookup (name :: loc) = none) (hparent : (nodes.lookup loc).any Node.isFolder)
    (h : ∀ name loc, (nodes.lookup (name :: loc)).isSome →
      (nodes.lookup loc).any Node.isFolder) (name' : String) (loc' : Location) :
    ((nodes.insert (name :: loc) node).lookup (name' :: loc')).isSome →
      ((nodes.insert (name :: loc) node).lookup loc').any Node.isFolder := by
  have hkeep : ∀ loc', (nodes.lookup loc').any Node.isFolder →
      ((nodes.insert (name :: loc) node).lookup loc').any Node.isFolder := by
    intro loc' hloc'
    rw [AList.lookup_insert_ne]
    · exact hloc'
    · rintro rfl
      rw [hfree] at hloc'
      cases hloc'
  intro hsome
  by_cases heq : name' :: loc' = name :: loc
  · obtain ⟨-, rfl⟩ := List.cons.inj heq
    exact hkeep _ hparent
  · rw [AList.lookup_insert_ne heq] at hsome
    exact hkeep _ (h name' loc' hsome)

def addFolder (fs : FileSystem) (uid : Uid) (loc : Location) (name : String)
    (hfree : fs.nodes.lookup (name :: loc) = none)
    (hparent : (fs.nodes.lookup loc).any Node.isFolder) : FileSystem where
  nodes := fs.nodes.insert (name :: loc) (.made uid)
  rooted := by
    rw [AList.lookup_insert_ne (by simp)]
    exact fs.rooted
  closed := closed_insert hfree hparent fs.closed

/-- `mkdir(path, 0755)` of a process of `uid` with the working folder `cwd`. -/
def mkdir (fs : FileSystem) (uid : Uid) (cwd : Location) (path : String) :
    Except Errno FileSystem :=
  match (components path).getLast? with
  | none => .error .eexist
  | some name =>
      match fs.walk uid (startOf cwd path) (components path).dropLast with
      | .error e => .error e
      | .ok loc =>
          if name = "." ∨ name = ".." then .error .eexist
          else if hfree : fs.nodes.lookup (name :: loc) = none then
            match hparent : fs.nodes.lookup loc with
            | some (.folder _ write) =>
                if write uid then .ok (fs.addFolder uid loc name hfree (by rw [hparent]; rfl))
                else .error .eacces
            | _ => .error .enotdir
          else .error .eexist

end FileSystem

/-- The loop of `create_folder_recursive`: the path made so far, the tokens left, and the
path that could not be made. -/
structure Maker where
  current : String
  tokens : List String
  failed : Option (String × Errno)
deriving DecidableEq, Repr

namespace Maker

def start (procFolderName : String) : Maker where
  current := if procFolderName.toList.head? = some '/' then "/" else ""
  tokens := components procFolderName
  failed := none

/-- The next `mkdir`.  What it shows is what the loop reports before it gives up. -/
def round (uid : Uid) (cwd : Location) (maker : Maker) (fs : FileSystem) (_turn : Unit) :
    Option (String × Errno) × Maker × FileSystem :=
  match maker.failed, maker.tokens with
  | none, token :: tokens =>
      let current := maker.current ++ token ++ "/"
      match fs.mkdir uid cwd current with
      | .ok fs => (none, { maker with current, tokens }, fs)
      | .error .eexist => (none, { maker with current, tokens }, fs)
      | .error e =>
          (some (current, e), { maker with current, tokens, failed := some (current, e) }, fs)
  | _, _ => (none, maker, fs)

def returned (maker : Maker) : Option Bool :=
  match maker.failed, maker.tokens with
  | some _, _ => some false
  | none, [] => some true
  | none, _ => none

end Maker

def ProcPath.text (path : ProcPath) : String := path.base ++ path.folder ++ "/"

/-- The path a proc makes below the trace path. -/
def TraCRProc.folderText (proc : TraCRProc) (path : String) : String :=
  ({ proc.procFolderName with base := path ++ "tracr/" } : ProcPath).text

end TraCR
