import Mathlib.Logic.Function.Basic
import MathTokens.Files.Tree

/-!
# Reading and writing in a tree

What a tree shows at names is a file with its content, a folder, or nothing. Reading a path shows the
file at the names that it means. Writing a file to a path changes what is shown there and nowhere
else, and the path is read as that file afterwards.
-/

namespace MathTokens

/-! ## The characters of a path -/

namespace Path

end Path

inductive Entry where
  | file (content : Utf8.Bytes)
  | folder
deriving DecidableEq

namespace Node

def entry : Node → Entry
  | .file content => .file content
  | .folder _ => .folder

def entryAt (n : Node) (names : List Text) : Option Entry :=
  (n.find? names).map entry

variable {n new : Node} {name : Text} {names names' : List Text} {entries : List (Text × Node)}

@[simp] theorem entryAt_nil : n.entryAt [] = some n.entry := by
  simp [entryAt, find?]

@[simp] theorem entryAt_file_cons {content : Utf8.Bytes} :
    (file content).entryAt (name :: names) = none := by
  simp [entryAt, find?]

theorem entryAt_folder_cons :
    (folder entries).entryAt (name :: names) = (entries.lookup name).bind (·.entryAt names) := by
  simp only [entryAt, find?, Option.map_bind]
  rfl

theorem entryAt_append_of_ne_folder (h : n.entryAt names ≠ some .folder) (hn : names' ≠ []) :
    n.entryAt (names ++ names') = none := by
  induction names generalizing n with
  | nil =>
    obtain ⟨name, rest, rfl⟩ := List.exists_cons_of_ne_nil hn
    cases n with
    | file => exact entryAt_file_cons
    | folder => exact absurd entryAt_nil h
  | cons name names ih =>
    cases n with
    | file => exact entryAt_file_cons
    | folder entries =>
      rw [List.cons_append, entryAt_folder_cons]
      rw [entryAt_folder_cons] at h
      cases hl : entries.lookup name with
      | none => rfl
      | some m =>
        rw [hl] at h
        exact ih h

theorem entryAt_folder_of_append (h : (n.entryAt (names ++ names')).isSome) (hn : names' ≠ []) :
    n.entryAt names = some .folder := by
  by_contra hf
  simp [entryAt_append_of_ne_folder hf hn] at h

theorem eq_folder_of_entryAt (h : n.entryAt names = some .folder) : ∃ entries, n = .folder entries := by
  cases n with
  | folder entries => exact ⟨entries, rfl⟩
  | file =>
    cases names with
    | nil => simp [entry] at h
    | cons => simp at h

theorem entryAt_dropLast (h : n.entryAt names = some .folder) :
    n.entryAt names.dropLast = some .folder := by
  by_cases hn : names = []
  · rwa [hn] at h ⊢
  · rw [← List.dropLast_concat_getLast hn] at h
    exact entryAt_folder_of_append (Option.isSome_of_eq_some h) (List.cons_ne_nil _ _)

/-! ## Setting an entry -/

theorem lookup_cons {name' : Text} :
    ((name, n) :: entries).lookup name' = if name' = name then some n else entries.lookup name' := by
  by_cases h : name' = name
  · simp [h]
  · rw [if_neg h, List.lookup_cons, beq_eq_false_iff_ne.mpr h]

theorem lookup_setEntry {name' : Text} :
    (setEntry name new entries).lookup name' =
      if name' = name then some new else entries.lookup name' := by
  induction entries with
  | nil => exact lookup_cons
  | cons e entries ih =>
    obtain ⟨first, old⟩ := e
    by_cases hfirst : first = name
    · rw [setEntry, if_pos hfirst, lookup_cons, lookup_cons, hfirst]
      split <;> rfl
    · rw [setEntry, if_neg hfirst, lookup_cons, lookup_cons, ih]
      by_cases h : name' = first
      · rw [if_pos h, if_neg (h ▸ hfirst), if_pos h]
      · rw [if_neg h, if_neg h]

theorem entryAt_put_single {content : Utf8.Bytes}
    (hfile : (folder entries).entryAt [name] ≠ some .folder) :
    (file content).entryAt names =
      Function.update (folder entries).entryAt [name] (some (.file content)) (name :: names) := by
  cases names with
  | nil => simp [entry]
  | cons next names =>
    rw [entryAt_file_cons, Function.update_of_ne (by simp)]
    exact (entryAt_append_of_ne_folder hfile (List.cons_ne_nil next names)).symm

/-- A file that is put into a folder stands there, and all else stands as before. -/
theorem entryAt_put {content : Utf8.Bytes} (hparent : n.entryAt names.dropLast = some .folder)
    (hfile : n.entryAt names ≠ some .folder) :
    (put (.file content) names n).entryAt = Function.update n.entryAt names (some (.file content)) := by
  induction names generalizing n with
  | nil => exact absurd hparent hfile
  | cons name names ih =>
    obtain ⟨entries, rfl⟩ := eq_folder_of_entryAt hparent
    funext names'
    cases names' with
    | nil =>
      rw [Function.update_of_ne (List.cons_ne_nil _ _).symm, put, entryAt_nil, entryAt_nil]
      rfl
    | cons name' names' =>
      rw [put, entryAt_folder_cons, lookup_setEntry]
      by_cases hname : name' = name
      · subst hname
        rw [if_pos rfl, Option.bind_some]
        -- the file is put at this name, or further below it, where the folder goes on
        by_cases hnames : names = []
        · subst hnames
          exact entryAt_put_single hfile
        · rw [List.dropLast_cons_of_ne_nil hnames, entryAt_folder_cons] at hparent
          obtain ⟨m, hm, hparent⟩ := Option.bind_eq_some_iff.mp hparent
          rw [entryAt_folder_cons, hm, Option.bind_some] at hfile
          rw [hm, Option.getD_some, ih hparent hfile]
          by_cases h : names' = names
          · rw [h, Function.update_self, Function.update_self]
          · have hne : name' :: names' ≠ name' :: names := fun e => h (List.cons.inj e).2
            rw [Function.update_of_ne h, Function.update_of_ne hne, entryAt_folder_cons, hm,
              Option.bind_some]
      · have hne : name' :: names' ≠ name :: names := fun h => hname (List.cons.inj h).1
        rw [if_neg hname, Function.update_of_ne hne, entryAt_folder_cons]

end Node

namespace FileTree

def entryAt (tree : FileTree) (names : List Text) : Option Entry :=
  tree.top.entryAt names

/-- The working directory is a folder of the tree. -/
def Grounded (tree : FileTree) : Prop :=
  tree.entryAt tree.here = some .folder

/-! ## Going along a path -/

section Walk

variable {top top' : Node} {folder names : List Text} {c : Text} {cs : List Text}

theorem walk_cons :
    walk top folder (c :: cs) =
      if c = Path.dotDot then walk top folder.dropLast cs
      else if nameLimit < (Utf8.encode c).length then .error .nameTooLong
      else if cs = [] then .ok (folder ++ [c])
      else
        match top.entryAt (folder ++ [c]) with
        | none => .error .notFound
        | some (.file _) => .error .notFolder
        | some .folder => walk top (folder ++ [c]) cs := by
  rw [walk]
  simp only [List.isEmpty_iff, Node.entryAt]
  cases top.find? (folder ++ [c]) with
  | none => rfl
  | some n => cases n <;> rfl

theorem walk_cons_eq_ok_iff :
    walk top folder (c :: cs) = .ok names ↔
      if c = Path.dotDot then walk top folder.dropLast cs = .ok names
      else (Utf8.encode c).length ≤ nameLimit ∧
        if cs = [] then names = folder ++ [c]
        else top.entryAt (folder ++ [c]) = some .folder ∧ walk top (folder ++ [c]) cs = .ok names := by
  rw [walk_cons]
  split
  · rfl
  by_cases hlong : nameLimit < (Utf8.encode c).length
  · simp [hlong, Nat.not_le.mpr hlong]
  · simp only [hlong, if_false, Nat.not_lt.mp hlong, true_and]
    split
    · simp [eq_comm]
    · cases top.entryAt (folder ++ [c]) with
      | none => simp
      | some e => cases e <;> simp

theorem walk_parent (hfolder : top.entryAt folder = some .folder)
    (h : walk top folder cs = .ok names) :
    top.entryAt names.dropLast = some .folder := by
  induction cs generalizing folder with
  | nil =>
    obtain rfl : folder = names := Except.ok.inj h
    exact Node.entryAt_dropLast hfolder
  | cons c cs ih =>
    rw [walk_cons_eq_ok_iff] at h
    split at h
    · exact ih (Node.entryAt_dropLast hfolder) h
    · obtain ⟨-, h⟩ := h
      split at h
      · rw [h, List.dropLast_concat]
        exact hfolder
      · exact ih h.1 h.2

/-- A path leads to the same place as long as the folders stay. -/
theorem walk_of_folders (hstay : ∀ ns, top.entryAt ns = some .folder → top'.entryAt ns = some .folder)
    (h : walk top folder cs = .ok names) : walk top' folder cs = .ok names := by
  induction cs generalizing folder with
  | nil => exact h
  | cons c cs ih =>
    rw [walk_cons_eq_ok_iff] at h ⊢
    by_cases hdots : c = Path.dotDot
    · rw [if_pos hdots] at h ⊢
      exact ih h
    · rw [if_neg hdots] at h ⊢
      refine ⟨h.1, ?_⟩
      by_cases hcs : cs = []
      · rw [if_pos hcs]
        simpa [hcs] using h.2
      · rw [if_neg hcs]
        simp only [hcs, if_false] at h
        exact ⟨hstay _ h.2.1, ih h.2.2⟩

/-- A path leads to the same place, or fails the same, as long as folders and files stay what they are. -/
theorem walk_congr (h : ∀ ns, top'.entryAt ns = top.entryAt ns ∨
      ∃ old new, top.entryAt ns = some (.file old) ∧ top'.entryAt ns = some (.file new)) :
    walk top' folder cs = walk top folder cs := by
  induction cs generalizing folder with
  | nil => rfl
  | cons c cs ih =>
    rw [walk_cons, walk_cons, ih, ih]
    rcases h (folder ++ [c]) with hsame | ⟨old, new, hold, hnew⟩
    · rw [hsame]
    · rw [hold, hnew]

end Walk

variable {tree tree' : FileTree} {p : Path} {content : Utf8.Bytes} {f : FileFault} {names : List Text}

theorem Grounded.start (hg : tree.Grounded) :
    tree.entryAt (if p.root = .here then tree.here else []) = some .folder := by
  split
  · exact hg
  · obtain ⟨entries, htop⟩ := Node.eq_folder_of_entryAt hg
    simp [entryAt, htop, Node.entry]

theorem locate_eq_ok_iff :
    tree.locate p = .ok names ↔
      (¬∃ c ∈ p.components, '\x00' ∈ c) ∧ (Utf8.encode p.toText).length ≤ pathLimit ∧
        walk tree.top (if p.root = .here then tree.here else []) p.components = .ok names := by
  unfold locate
  by_cases hnul : ∃ c ∈ p.components, '\x00' ∈ c
  · simp [hnul]
  by_cases hlong : pathLimit < (Utf8.encode p.toText).length
  · simp [hnul, hlong, Nat.not_le.mpr hlong]
  · simp [hnul, hlong, Nat.not_lt.mp hlong]

theorem locate_parent (hg : tree.Grounded) (h : tree.locate p = .ok names) :
    tree.entryAt names.dropLast = some .folder :=
  walk_parent hg.start (locate_eq_ok_iff.mp h).2.2

theorem read_eq :
    tree.read p =
      match tree.locate p with
      | .error f => .error f
      | .ok names =>
        match tree.entryAt names with
        | none => .error .notFound
        | some .folder => .error .isFolder
        | some (.file content) => .ok content := by
  unfold read entryAt Node.entryAt
  cases tree.locate p with
  | error => rfl
  | ok names =>
    simp only [bind, Except.bind]
    cases tree.top.find? names with
    | none => rfl
    | some n => cases n <;> rfl

theorem read_eq_ok_iff :
    tree.read p = .ok content ↔
      ∃ names, tree.locate p = .ok names ∧ tree.entryAt names = some (.file content) := by
  rw [read_eq]
  cases tree.locate p with
  | error => simp
  | ok names =>
    simp only [Except.ok.injEq, exists_eq_left']
    split <;> simp_all

theorem write_eq :
    tree.write p content =
      match tree.locate p with
      | .error f => .error f
      | .ok names =>
        if tree.entryAt names = some .folder then .error .isFolder
        else .ok { tree with top := Node.put (.file content) names tree.top } := by
  unfold write entryAt Node.entryAt
  cases tree.locate p with
  | error => rfl
  | ok names =>
    simp only [bind, Except.bind]
    cases tree.top.find? names with
    | none => rfl
    | some n => cases n <;> rfl

/-- A file cannot be opened for writing: its path leads nowhere, or to a folder. -/
def Refuses (tree : FileTree) (p : Path) (f : FileFault) : Prop :=
  tree.locate p = .error f ∨
    f = .isFolder ∧ ∃ names, tree.locate p = .ok names ∧ tree.entryAt names = some .folder

theorem write_eq_error_iff : tree.write p content = .error f ↔ tree.Refuses p f := by
  rw [write_eq, Refuses]
  cases tree.locate p with
  | error => simp
  | ok names =>
    by_cases h : tree.entryAt names = some .folder
    · simp [h, eq_comm]
    · simp [h]

/-- Where a file is written its path leads to it, and nothing else changes. -/
theorem write_eq_ok (hg : tree.Grounded) (h : tree.write p content = .ok tree') :
    ∃ names, tree.locate p = .ok names ∧
      tree'.entryAt = Function.update tree.entryAt names (some (.file content)) ∧
      tree'.here = tree.here ∧ tree'.read p = .ok content := by
  rw [write_eq] at h
  split at h
  · cases h
  next names hnames =>
  split at h
  · cases h
  next hfile =>
  obtain rfl := Except.ok.inj h
  have hput : (Node.put (.file content) names tree.top).entryAt =
      Function.update tree.entryAt names (some (.file content)) :=
    Node.entryAt_put (locate_parent hg hnames) hfile
  refine ⟨names, hnames, hput, rfl, ?_⟩
  rw [read_eq_ok_iff]
  refine ⟨names, ?_, (congrFun hput names).trans (Function.update_self ..)⟩
  -- The path leads through folders, and the file is put where there is none.
  rw [locate_eq_ok_iff] at hnames ⊢
  refine ⟨hnames.1, hnames.2.1, walk_of_folders (fun ns hns => ?_) hnames.2.2⟩
  have hne : ns ≠ names := fun h => hfile (h ▸ hns)
  exact (congrFun hput ns).trans ((Function.update_of_ne hne ..).trans hns)

end FileTree

end MathTokens
