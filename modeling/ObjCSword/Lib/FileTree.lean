import Mathlib.Data.List.AList
import Mathlib.Data.List.Induction

/-!
# Trees of directories and files

A file system without links is a map from paths to nodes, where a path is the list of the names on
the way from the root. That each node lies in a directory is part of the type. Two operations change
a tree: a directory is made in one that is there, or a file is written. Both leave every directory
and every other path as it was (`lookup_createDirectory`, `lookup_writeFile`), and where they cannot
do what they are asked for they do nothing.
-/

namespace Lib.FileTree

variable {ν φ : Type} [DecidableEq ν]

inductive Node (φ : Type) where
  | directory
  | file (content : φ)

/-- Whether there is a directory does not depend on what files hold. -/
instance (node : Option (Node φ)) : Decidable (node = some .directory) :=
  match node with
  | some .directory => isTrue rfl
  | some (.file _) => isFalse nofun
  | none => isFalse nofun

/-- A tree. The root is a directory, and what is there lies in one. -/
structure Tree (ν φ : Type) [DecidableEq ν] where
  nodes : AList fun _ : List ν => Node φ
  root : AList.lookup [] nodes = some .directory
  parent : ∀ p name node, AList.lookup (p ++ [name]) nodes = some node →
    AList.lookup p nodes = some .directory

namespace Tree

/-- What is found at a path. -/
def lookup (fs : Tree ν φ) (p : List ν) : Option (Node φ) := AList.lookup p fs.nodes

/-- Nothing but the root. -/
def empty : Tree ν φ where
  nodes := AList.insert [] .directory ∅
  root := AList.lookup_insert _
  parent p name node h := by
    rw [AList.lookup_insert_ne (List.append_ne_nil_of_right_ne_nil p (List.cons_ne_nil name [])),
      AList.lookup_empty] at h
    cases h

/-- A path that leads into nothing, or into a file, leads nowhere. -/
theorem lookup_append_of_not_directory (fs : Tree ν φ) {p : List ν}
    (h : fs.lookup p ≠ some .directory) {q : List ν} (hq : q ≠ []) :
    fs.lookup (p ++ q) = none := by
  induction q using List.reverseRecOn with
  | nil => exact absurd rfl hq
  | append_singleton q name ih =>
    cases hnode : fs.lookup (p ++ (q ++ [name])) with
    | none => rfl
    | some node =>
      rw [← List.append_assoc] at hnode
      have hparent : fs.lookup (p ++ q) = some .directory := fs.parent _ _ _ hnode
      by_cases hnil : q = []
      · rw [hnil, List.append_nil] at hparent
        exact absurd hparent h
      · rw [ih hnil] at hparent
        cases hparent

/-- A node is put into a directory, in the place of a file or of nothing. -/
def put (fs : Tree ν φ) (p : List ν) (node : Node φ)
    (hparent : fs.lookup p.dropLast = some .directory)
    (hfree : fs.lookup p ≠ some .directory) : Tree ν φ where
  nodes := AList.insert p node fs.nodes
  root := by
    have hne : [] ≠ p := fun h => hfree (h ▸ fs.root)
    rw [AList.lookup_insert_ne hne]
    exact fs.root
  parent q name node' h := by
    have hdirectory : fs.lookup q = some .directory := by
      by_cases hp : q ++ [name] = p
      · rw [← hp, List.dropLast_concat] at hparent
        exact hparent
      · rw [AList.lookup_insert_ne hp] at h
        exact fs.parent q name node' h
    have hne : q ≠ p := fun hp => hfree (hp ▸ hdirectory)
    rw [AList.lookup_insert_ne hne]
    exact hdirectory

/-- A directory is made where there is nothing, in a directory. -/
def createDirectory (fs : Tree ν φ) (p : List ν) : Tree ν φ :=
  if h : fs.lookup p.dropLast = some .directory ∧ fs.lookup p = none then
    fs.put p .directory h.1 (by rw [h.2]; exact nofun)
  else fs

/-- A file is written, over another one or where there is nothing. -/
def writeFile (fs : Tree ν φ) (p : List ν) (content : φ) : Tree ν φ :=
  if h : fs.lookup p.dropLast = some .directory ∧ fs.lookup p ≠ some .directory then
    fs.put p (.file content) h.1 h.2
  else fs

/-- The names in a directory. -/
def children (fs : Tree ν φ) (p : List ν) : List ν :=
  fs.nodes.keys.filterMap fun q => if q.dropLast = p then q.getLast? else none

theorem lookup_put (fs : Tree ν φ) {p : List ν} {node : Node φ}
    (hparent : fs.lookup p.dropLast = some .directory)
    (hfree : fs.lookup p ≠ some .directory) (q : List ν) :
    (fs.put p node hparent hfree).lookup q = if q = p then some node else fs.lookup q := by
  by_cases hq : q = p
  · rw [if_pos hq, hq]
    exact AList.lookup_insert _
  · rw [if_neg hq]
    exact AList.lookup_insert_ne hq

/-- Another path leads where it led. -/
theorem lookup_createDirectory_of_ne (fs : Tree ν φ) {p q : List ν} (h : q ≠ p) :
    (fs.createDirectory p).lookup q = fs.lookup q := by
  unfold createDirectory
  split
  · rw [lookup_put, if_neg h]
  · rfl

/-- What is there stays. -/
theorem lookup_createDirectory_of_some {fs : Tree ν φ} {q : List ν} {node : Node φ}
    (h : fs.lookup q = some node) (p : List ν) : (fs.createDirectory p).lookup q = some node := by
  by_cases hq : q = p
  · have hnot : ¬ (fs.lookup p.dropLast = some .directory ∧ fs.lookup p = none) := by
      rw [← hq, h]
      exact fun hnone => Option.some_ne_none _ hnone.2
    rw [createDirectory, dif_neg hnot, h]
  · rw [lookup_createDirectory_of_ne fs hq, h]

/-- The directory is there, where it can be made or was made before. -/
theorem lookup_createDirectory {fs : Tree ν φ} {p : List ν} {name : ν}
    (hparent : fs.lookup p = some .directory)
    (hfree : ∀ content, fs.lookup (p ++ [name]) ≠ some (.file content)) :
    (fs.createDirectory (p ++ [name])).lookup (p ++ [name]) = some .directory := by
  cases hnode : fs.lookup (p ++ [name]) with
  | some node =>
    cases node with
    | directory => exact lookup_createDirectory_of_some hnode _
    | file content => exact absurd hnode (hfree content)
  | none =>
    have hcan : fs.lookup (p ++ [name]).dropLast = some .directory ∧
        fs.lookup (p ++ [name]) = none := by
      rw [List.dropLast_concat]
      exact ⟨hparent, hnode⟩
    rw [createDirectory, dif_pos hcan, lookup_put, if_pos rfl]

theorem lookup_writeFile_of_ne (fs : Tree ν φ) {p q : List ν} (content : φ) (h : q ≠ p) :
    (fs.writeFile p content).lookup q = fs.lookup q := by
  unfold writeFile
  split
  · rw [lookup_put, if_neg h]
  · rfl

/-- The file is there, where it can be written. -/
theorem lookup_writeFile {fs : Tree ν φ} {p : List ν} {name : ν} (content : φ)
    (hparent : fs.lookup p = some .directory)
    (hfree : fs.lookup (p ++ [name]) ≠ some .directory) :
    (fs.writeFile (p ++ [name]) content).lookup (p ++ [name]) = some (.file content) := by
  have hcan : fs.lookup (p ++ [name]).dropLast = some .directory ∧
      fs.lookup (p ++ [name]) ≠ some .directory := by
    rw [List.dropLast_concat]
    exact ⟨hparent, hfree⟩
  rw [writeFile, dif_pos hcan, lookup_put, if_pos rfl]

theorem mem_children (fs : Tree ν φ) {p : List ν} {name : ν} :
    name ∈ fs.children p ↔ fs.lookup (p ++ [name]) ≠ none := by
  have hkey : (∃ node, fs.lookup (p ++ [name]) = some node) ↔ p ++ [name] ∈ fs.nodes.keys := by
    rw [← AList.mem_keys, ← AList.lookup_isSome, Option.isSome_iff_exists]
    rfl
  rw [Option.ne_none_iff_exists', hkey, children, List.mem_filterMap]
  constructor
  · rintro ⟨q, hq, hname⟩
    split at hname
    · next hparent =>
      rw [List.getLast?_eq_some_iff] at hname
      obtain ⟨init, rfl⟩ := hname
      rw [List.dropLast_concat] at hparent
      rw [← hparent]
      exact hq
    · cases hname
  · intro hmem
    refine ⟨_, hmem, ?_⟩
    rw [List.dropLast_concat, if_pos rfl, List.getLast?_concat]

/-- No name is there twice. -/
theorem nodup_children (fs : Tree ν φ) (p : List ν) : (fs.children p).Nodup := by
  refine fs.nodes.keys_nodup.filterMap fun q q' name hq hq' => ?_
  rw [Option.mem_def] at hq hq'
  split at hq
  · split at hq'
    · next hparent hparent' =>
      obtain ⟨init, rfl⟩ := List.getLast?_eq_some_iff.mp hq
      obtain ⟨init', rfl⟩ := List.getLast?_eq_some_iff.mp hq'
      rw [List.dropLast_concat] at hparent hparent'
      rw [hparent, hparent']
    · cases hq'
  · cases hq

end Tree

end Lib.FileTree
