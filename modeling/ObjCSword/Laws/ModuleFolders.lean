import ObjCSword.ModuleFolders

/-!
# The folders of the modules over many calls

A commentary that is made is complete: its configuration lies where the engine looks for it, and
the folder of its data is there. Whatever commentaries are made and managers started, nothing that
was there is lost, and a manager that is started then is augmented with the folders of before and
with those of the new commentaries, except where a name begins with a dot (`folders_after_calls`).
-/

namespace ObjCSword

open NSString Sword Lib.FileTree

namespace SwordCommentary

variable {rawFiles : RawFiles} {modulesPath path q : Path} {aName bName : FileName} {fm : Files}

theorem swd_injective (h : swd aName = swd bName) : aName = bName := by
  have hname : aName.name ++ ".swd" = bName.name ++ ".swd" := congrArg FileName.name h
  rw [← String.toList_inj, String.toList_append, String.toList_append] at hname
  have heq : aName.name = bName.name := String.toList_inj.mp (List.append_cancel_right hname)
  cases aName
  cases bName
  cases heq
  rfl

/-- Where the data are, from the folder of the module. -/
def dataPath (aName : FileName) : Path := [modulesDir, comments, rawfiles, aName]

/-- The folder holds a commentary: its configuration is in `mods.d`, and the folder of its data is
there. -/
structure IsCommentary (fm : Files) (path : Path) (aName : FileName) : Prop where
  folder : fm.lookup path = some .directory
  config : fm.lookup (path ++ [modsd, conf aName]) = some (.file (.config (newConf aName)))
  data : fm.lookup (path ++ dataPath aName) = some .directory

/-- At a path and below there are these folders, and nothing else. -/
def HasFolders (fm : Files) (path : Path) (folders : List Path) : Prop :=
  ∀ rest, fm.lookup (path ++ rest) = if rest ∈ folders then some .directory else none

theorem HasFolders.folder {folders : List Path} (h : HasFolders fm path folders) {rest : Path}
    (hrest : rest ∈ folders) : fm.lookup (path ++ rest) = some .directory := by
  rw [h rest, if_pos hrest]

/-- One more, in a folder that is there. -/
theorem HasFolders.createDirectory {folders : List Path} (h : HasFolders fm path folders)
    {p : Path} (hp : p ∈ folders) (name : FileName) :
    HasFolders (fm.createDirectory (path ++ p ++ [name])) path ((p ++ [name]) :: folders) := by
  intro rest
  by_cases hrest : rest = p ++ [name]
  · rw [if_pos (List.mem_cons.mpr (Or.inl hrest)), hrest, ← List.append_assoc]
    refine Tree.lookup_createDirectory (h.folder hp) fun content => ?_
    rw [List.append_assoc, h]
    split <;> exact nofun
  · have hne : path ++ rest ≠ path ++ p ++ [name] := fun heq => hrest (by
      rw [List.append_assoc] at heq
      exact List.append_cancel_left heq)
    rw [Tree.lookup_createDirectory_of_ne _ hne, h rest]
    simp only [List.mem_cons, hrest, false_or]

/-- The first folder. -/
theorem HasFolders.first {name : FileName} (hparent : fm.lookup modulesPath = some .directory)
    (hfree : fm.lookup (modulesPath ++ [name]) = none) :
    HasFolders (fm.createDirectory (modulesPath ++ [name])) (modulesPath ++ [name]) [[]] := by
  intro rest
  by_cases hrest : rest = []
  · rw [if_pos (List.mem_singleton.mpr hrest), hrest, List.append_nil]
    refine Tree.lookup_createDirectory hparent fun content => ?_
    rw [hfree]
    exact nofun
  · have hne : modulesPath ++ [name] ++ rest ≠ modulesPath ++ [name] := fun heq =>
      hrest (List.append_right_eq_self.mp heq)
    rw [if_neg (fun h => hrest (List.mem_singleton.mp h)),
      Tree.lookup_createDirectory_of_ne _ hne]
    exact fm.lookup_append_of_not_directory (by rw [hfree]; exact nofun) hrest

/-- The folders that are made, one in another. -/
def makeFolders (path : Path) (aName : FileName) (fm : Files) : Files :=
  let fm := fm.createDirectory path
  let fm := fm.createDirectory (path ++ [] ++ [modsd])
  let fm := fm.createDirectory (path ++ [] ++ [modulesDir])
  let fm := fm.createDirectory (path ++ [modulesDir] ++ [comments])
  let fm := fm.createDirectory (path ++ [modulesDir, comments] ++ [rawfiles])
  fm.createDirectory (path ++ [modulesDir, comments, rawfiles] ++ [aName])

/-- These, from the first one. -/
def newFolders (aName : FileName) : List Path :=
  [dataPath aName, [modulesDir, comments, rawfiles], [modulesDir, comments], [modulesDir], [modsd],
    []]

/-- All of them are there. -/
theorem hasFolders_makeFolders (aName : FileName) {name : FileName}
    (hparent : fm.lookup modulesPath = some .directory)
    (hfree : fm.lookup (modulesPath ++ [name]) = none) :
    HasFolders (makeFolders (modulesPath ++ [name]) aName fm) (modulesPath ++ [name])
      (newFolders aName) := by
  have h := HasFolders.first hparent hfree
  have h := h.createDirectory (p := []) (by simp) modsd
  have h := h.createDirectory (p := []) (by simp) modulesDir
  have h := h.createDirectory (p := [modulesDir]) (by simp) comments
  have h := h.createDirectory (p := [modulesDir, comments]) (by simp) rawfiles
  exact h.createDirectory (p := [modulesDir, comments, rawfiles]) (by simp) aName

theorem ne_append_of_not_below (h : ¬ path <+: q) (rest : Path) : q ≠ path ++ rest :=
  fun heq => h (heq ▸ List.prefix_append path rest)

theorem lookup_makeFolders_of_not_below (h : ¬ path <+: q) :
    (makeFolders path aName fm).lookup q = fm.lookup q := by
  have hq : ∀ rest rest', q ≠ path ++ rest ++ rest' := fun rest rest' => by
    rw [List.append_assoc]
    exact ne_append_of_not_below h _
  have hpath : q ≠ path := fun heq => h (heq ▸ List.prefix_rfl)
  unfold makeFolders
  rw [Tree.lookup_createDirectory_of_ne _ (hq _ _), Tree.lookup_createDirectory_of_ne _ (hq _ _),
    Tree.lookup_createDirectory_of_ne _ (hq _ _), Tree.lookup_createDirectory_of_ne _ (hq _ _),
    Tree.lookup_createDirectory_of_ne _ (hq _ _), Tree.lookup_createDirectory_of_ne _ hpath]

/-- Where something is at the path, nothing is made. -/
theorem createCommentaryWithName_of_some
    (h : fm.lookup (modulesPath ++ [swd aName]) ≠ none) :
    createCommentaryWithName rawFiles modulesPath aName fm = (none, fm) := by
  have hexists : fm.fileExistsAtPath (modulesPath ++ [swd aName]) = true :=
    Option.isSome_iff_ne_none.mpr h
  rw [createCommentaryWithName, if_pos hexists]

theorem createCommentaryWithName_of_none (h : fm.lookup (modulesPath ++ [swd aName]) = none) :
    createCommentaryWithName rawFiles modulesPath aName fm =
      (some (modulesPath ++ [swd aName]),
        (rawFiles.createModule (modulesPath ++ [swd aName] ++ dataPath aName)
          (makeFolders (modulesPath ++ [swd aName]) aName fm)).writeFile
            (modulesPath ++ [swd aName] ++ [modsd] ++ [conf aName]) (.config (newConf aName))) := by
  have hexists : ¬ fm.fileExistsAtPath (modulesPath ++ [swd aName]) = true := by
    rw [Files.fileExistsAtPath, h]
    exact Bool.false_ne_true
  rw [createCommentaryWithName, if_neg hexists]
  simp only [makeFolders, dataPath, List.append_assoc, List.cons_append, List.nil_append]

/-- Elsewhere nothing is changed. -/
theorem createCommentaryWithName_elsewhere
    (hparent : fm.lookup modulesPath = some .directory)
    (h : ¬ modulesPath ++ [swd aName] <+: q) :
    (createCommentaryWithName rawFiles modulesPath aName fm).2.lookup q = fm.lookup q := by
  by_cases hfree : fm.lookup (modulesPath ++ [swd aName]) = none
  · have hdata := (hasFolders_makeFolders aName hparent hfree).folder List.mem_cons_self
    have hconf : q ≠ modulesPath ++ [swd aName] ++ [modsd] ++ [conf aName] := by
      rw [List.append_assoc]
      exact ne_append_of_not_below h _
    have hnot : ¬ modulesPath ++ [swd aName] ++ dataPath aName <+: q :=
      fun hbelow => h ((List.prefix_append _ _).trans hbelow)
    rw [createCommentaryWithName_of_none hfree, Tree.lookup_writeFile_of_ne _ _ hconf,
      rawFiles.elsewhere _ _ _ hdata hnot, lookup_makeFolders_of_not_below h]
  · rw [createCommentaryWithName_of_some hfree]

/-- What is made is a commentary. -/
theorem createCommentaryWithName_isCommentary
    (hparent : fm.lookup modulesPath = some .directory)
    (hfree : fm.lookup (modulesPath ++ [swd aName]) = none) :
    IsCommentary (createCommentaryWithName rawFiles modulesPath aName fm).2
      (modulesPath ++ [swd aName]) aName := by
  have hmade := hasFolders_makeFolders aName hparent hfree
  rw [createCommentaryWithName_of_none hfree]
  generalize makeFolders (modulesPath ++ [swd aName]) aName fm = made at hmade
  generalize modulesPath ++ [swd aName] = path at hmade
  have hdata := hmade.folder List.mem_cons_self
  -- the engine's files are below the folder of the data
  have hkept : ∀ rest : Path, rest.length < 4 →
      (rawFiles.createModule (path ++ dataPath aName) made).lookup (path ++ rest) =
        made.lookup (path ++ rest) := by
    intro rest hlength
    refine rawFiles.elsewhere _ _ _ hdata fun hbelow => ?_
    have hle := ((List.prefix_append_right_inj path).mp hbelow).length_le
    exact absurd hle (Nat.not_le.mpr hlength)
  have hconf : path ++ [modsd] ++ [conf aName] = path ++ [modsd, conf aName] :=
    List.append_assoc _ _ _
  have hne : ∀ rest : Path, rest ≠ [modsd, conf aName] →
      path ++ rest ≠ path ++ [modsd] ++ [conf aName] := fun rest hrest heq =>
    hrest (List.append_cancel_left (heq.trans hconf))
  constructor
  · have hpath : made.lookup (path ++ []) = some .directory := hmade.folder (by simp [newFolders])
    rw [← hkept [] (by simp),
      ← Tree.lookup_writeFile_of_ne _ (.config (newConf aName)) (hne [] (by simp))] at hpath
    rwa [List.append_nil] at hpath
  · rw [← hconf]
    refine Tree.lookup_writeFile _ ?_ ?_
    · rw [hkept [modsd] (by simp)]
      exact hmade.folder (by simp [newFolders])
    · have hfolders : [modsd, conf aName] ∉ newFolders aName := by
        have hmodules : modsd ≠ modulesDir := by decide
        simp [newFolders, dataPath, hmodules]
      rw [hconf, hkept _ (by simp), hmade, if_neg hfolders]
      exact nofun
  · rw [Tree.lookup_writeFile_of_ne _ _ (hne (dataPath aName) (by simp [dataPath]))]
    exact rawFiles.directory _ _ hdata

end SwordCommentary

namespace SwordManager

open SwordCommentary

variable {modulesPath : Path} {fm : Files}

/-- A commentary is augmented unless its name begins with a dot. -/
theorem isModuleFolder_swd (aName : FileName) :
    isModuleFolder (swd aName) = !hasPrefix aName.name "." := by
  have hname : (swd aName).name.toList = aName.name.toList ++ ".swd".toList :=
    String.toList_append
  have hne : ∀ n : FileName, ¬ ".swd".toList <:+ n.name.toList → swd aName ≠ n := by
    rintro n hn rfl
    rw [hname] at hn
    exact hn (List.suffix_append _ _)
  have hdot : hasPrefix (swd aName).name "." = hasPrefix aName.name "." := by
    rw [hasPrefix, hasPrefix, hname]
    cases hchars : aName.name.toList with
    | nil => exact absurd (String.toList_eq_nil_iff.mp hchars) aName.nonempty
    | cons c cs => rfl
  have hinstall := hne installMgr (by decide)
  have hmodsd := hne modsd (by decide)
  have hmodules := hne modulesDir (by decide)
  simp only [isModuleFolder, hdot, hinstall, hmodsd, hmodules, ne_eq, not_false_eq_true,
    decide_true, Bool.and_true]

theorem mem_augmentedFolders {path : Path} :
    path ∈ augmentedFolders modulesPath fm ↔
      ∃ subDir, isModuleFolder subDir = true ∧
        fm.lookup (modulesPath ++ [subDir]) = some .directory ∧
        path = modulesPath ++ [subDir] := by
  rw [augmentedFolders, List.mem_filter, List.mem_map]
  constructor
  · rintro ⟨⟨subDir, hsubDir, rfl⟩, hdirectory⟩
    exact ⟨subDir, (List.mem_filter.mp hsubDir).2, of_decide_eq_true hdirectory, rfl⟩
  · rintro ⟨subDir, hmodule, hdirectory, rfl⟩
    have hchild : subDir ∈ fm.children modulesPath := by
      rw [Tree.mem_children, hdirectory]
      exact nofun
    exact ⟨⟨subDir, List.mem_filter.mpr ⟨hchild, hmodule⟩, rfl⟩, decide_eq_true hdirectory⟩

/-- No folder is augmented twice. -/
theorem nodup_augmentedFolders : (augmentedFolders modulesPath fm).Nodup := by
  refine List.Nodup.filter _ (List.Nodup.map ?_ ((Tree.nodup_children _ _).filter _))
  intro subDir subDir' h
  exact List.singleton_inj.mp (List.append_cancel_left h)

end SwordManager

namespace FolderCall

open SwordCommentary SwordManager

variable {σ : Type} {rawFiles : RawFiles} {E : SWMgr σ} {modulesPath : Path} {fm after : Files}
  {calls : List FolderCall} {aName bName : FileName}

/-- The calls ask for a commentary where there is nothing. -/
def Makes (modulesPath : Path) (fm : Files) (calls : List FolderCall) (aName : FileName) : Prop :=
  createCommentaryWithName aName ∈ calls ∧ fm.lookup (modulesPath ++ [swd aName]) = none

/-- What calls come to: the commentaries are there, and all else is as it was. -/
structure After (modulesPath : Path) (fm : Files) (calls : List FolderCall) (after : Files) :
    Prop where
  base : after.lookup modulesPath = some .directory
  commentary : ∀ aName, Makes modulesPath fm calls aName →
    IsCommentary after (modulesPath ++ [swd aName]) aName
  elsewhere : ∀ q, (∀ aName, Makes modulesPath fm calls aName →
    ¬ modulesPath ++ [swd aName] <+: q) → after.lookup q = fm.lookup q

/-- The folder of a commentary is in that of no other one. -/
theorem eq_of_below {rest : Path}
    (h : modulesPath ++ [swd aName] <+: modulesPath ++ [swd bName] ++ rest) : aName = bName := by
  rw [List.append_assoc, List.prefix_append_right_inj, List.singleton_append,
    List.cons_prefix_cons] at h
  exact swd_injective h.1

theorem IsCommentary.of_lookup {fm' : Files} {path : Path} (h : IsCommentary fm path aName)
    (hlookup : ∀ rest, fm'.lookup (path ++ rest) = fm.lookup (path ++ rest)) :
    IsCommentary fm' path aName := by
  constructor
  · have hpath := hlookup []
    rw [List.append_nil] at hpath
    rw [hpath, h.folder]
  · rw [hlookup, h.config]
  · rw [hlookup, h.data]

/-- Where a commentary is not made, there is what there was. -/
theorem After.lookup_swd (h : After modulesPath fm calls after)
    (hnot : ¬ Makes modulesPath fm calls aName) :
    after.lookup (modulesPath ++ [swd aName]) = fm.lookup (modulesPath ++ [swd aName]) := by
  refine h.elsewhere _ fun bName hmakes hbelow => hnot ?_
  rw [← List.append_nil (modulesPath ++ [swd aName])] at hbelow
  rwa [← eq_of_below hbelow]

theorem After.initManager (h : After modulesPath fm calls after) (rawFiles : RawFiles)
    (E : SWMgr σ) :
    After modulesPath fm (calls ++ [.initManager])
      (FolderCall.step rawFiles E modulesPath after .initManager) := by
  have hexists : after.fileExistsAtPath modulesPath = true := by
    rw [Files.fileExistsAtPath, h.base]
    rfl
  have hstep : FolderCall.step rawFiles E modulesPath after .initManager = after := by
    rw [FolderCall.step, SwordManager.initManager, if_pos hexists]
  have hmakes : ∀ aName, Makes modulesPath fm (calls ++ [.initManager]) aName ↔
      Makes modulesPath fm calls aName := fun aName => by simp [Makes]
  rw [hstep]
  exact ⟨h.base, fun aName hm => h.commentary aName ((hmakes aName).mp hm),
    fun q hq => h.elsewhere q fun aName hm => hq aName ((hmakes aName).mpr hm)⟩

theorem makes_append {bName : FileName} :
    Makes modulesPath fm (calls ++ [createCommentaryWithName bName]) aName ↔
      Makes modulesPath fm calls aName ∨
        aName = bName ∧ fm.lookup (modulesPath ++ [swd aName]) = none := by
  simp [Makes, or_and_right]

theorem After.createCommentaryWithName (h : After modulesPath fm calls after) (E : SWMgr σ)
    (bName : FileName) :
    After modulesPath fm (calls ++ [.createCommentaryWithName bName])
      (FolderCall.step rawFiles E modulesPath after (.createCommentaryWithName bName)) := by
  rw [FolderCall.step]
  by_cases hfree : after.lookup (modulesPath ++ [swd bName]) = none
  · have hnot : ¬ Makes modulesPath fm calls bName := fun hm => by
      have hfolder := (h.commentary bName hm).folder
      rw [hfree] at hfolder
      cases hfolder
    have hmade : Makes modulesPath fm (calls ++ [.createCommentaryWithName bName]) bName :=
      makes_append.mpr (Or.inr ⟨rfl, (h.lookup_swd hnot).symm.trans hfree⟩)
    constructor
    · rw [createCommentaryWithName_elsewhere h.base, h.base]
      intro hbelow
      have hle := hbelow.length_le
      rw [List.length_append, List.length_singleton] at hle
      omega
    · intro aName hm
      rcases makes_append.mp hm with hm | ⟨rfl, -⟩
      · refine IsCommentary.of_lookup (h.commentary aName hm) fun rest => ?_
        refine createCommentaryWithName_elsewhere h.base fun hbelow => hnot ?_
        rwa [eq_of_below hbelow]
      · exact createCommentaryWithName_isCommentary h.base hfree
    · intro q hq
      rw [createCommentaryWithName_elsewhere h.base (hq bName hmade)]
      exact h.elsewhere q fun aName hm => hq aName (makes_append.mpr (Or.inl hm))
  · rw [createCommentaryWithName_of_some hfree]
    have hmakes : ∀ aName,
        Makes modulesPath fm (calls ++ [.createCommentaryWithName bName]) aName →
          Makes modulesPath fm calls aName := by
      intro aName hm
      rcases makes_append.mp hm with hm | ⟨rfl, hnone⟩
      · exact hm
      · by_contra hnot
        exact hfree ((h.lookup_swd hnot).trans hnone)
    exact ⟨h.base, fun aName hm => h.commentary aName (hmakes aName hm),
      fun q hq => h.elsewhere q fun aName hm => hq aName (makes_append.mpr (Or.inl hm))⟩

/-- The folders of before and those of the commentaries. -/
theorem After.mem_augmentedFolders (h : After modulesPath fm calls after) {path : Path} :
    path ∈ augmentedFolders modulesPath after ↔ path ∈ augmentedFolders modulesPath fm ∨
      ∃ aName, Makes modulesPath fm calls aName ∧ hasPrefix aName.name "." = false ∧
        path = modulesPath ++ [swd aName] := by
  rw [SwordManager.mem_augmentedFolders, SwordManager.mem_augmentedFolders]
  constructor
  · rintro ⟨subDir, hmodule, hdirectory, rfl⟩
    by_cases hmade : ∃ aName, Makes modulesPath fm calls aName ∧ subDir = swd aName
    · obtain ⟨aName, hm, rfl⟩ := hmade
      rw [isModuleFolder_swd, Bool.not_eq_true'] at hmodule
      exact Or.inr ⟨aName, hm, hmodule, rfl⟩
    · have hkept :
          after.lookup (modulesPath ++ [subDir]) = fm.lookup (modulesPath ++ [subDir]) := by
        refine h.elsewhere _ fun aName hm hbelow => hmade ⟨aName, hm, ?_⟩
        rw [List.prefix_append_right_inj, List.cons_prefix_cons] at hbelow
        exact hbelow.1.symm
      exact Or.inl ⟨subDir, hmodule, hkept ▸ hdirectory, rfl⟩
  · rintro (⟨subDir, hmodule, hdirectory, rfl⟩ | ⟨aName, hm, hdot, rfl⟩)
    · refine ⟨subDir, hmodule, ?_, rfl⟩
      rw [h.elsewhere, hdirectory]
      intro aName hm hbelow
      rw [List.prefix_append_right_inj, List.cons_prefix_cons] at hbelow
      have hnone := hm.2
      rw [hbelow.1, hdirectory] at hnone
      cases hnone
    · refine ⟨swd aName, ?_, (h.commentary aName hm).folder, rfl⟩
      rw [isModuleFolder_swd, hdot]
      rfl

/-- After any calls. -/
theorem after_calls (hbase : fm.lookup modulesPath = some .directory) (calls : List FolderCall) :
    After modulesPath fm calls (calls.foldl (FolderCall.step rawFiles E modulesPath) fm) := by
  induction calls using List.reverseRecOn with
  | nil =>
    exact ⟨hbase, fun aName hm => absurd hm.1 List.not_mem_nil, fun q _ => rfl⟩
  | append_singleton calls call ih =>
    rw [List.foldl_append]
    cases call with
    | createCommentaryWithName bName => exact ih.createCommentaryWithName E bName
    | initManager => exact ih.initManager rawFiles E

/-- Whatever is called, a manager that is started then is augmented with the folders of before and
those of the new commentaries whose names do not begin with a dot, each once; the new commentaries
are complete, and all else is as it was. -/
theorem folders_after_calls (rawFiles : RawFiles) (E : SWMgr σ)
    (hbase : fm.lookup modulesPath = some .directory) (calls : List FolderCall) :
    let after := calls.foldl (FolderCall.step rawFiles E modulesPath) fm
    (∃ folders : List Path,
      (SwordManager.initManager E (some modulesPath) after).1 =
        some (folders.foldl
          (fun swManager fullSubDir => E.augmentModules swManager fullSubDir after)
          (E.new modulesPath after)) ∧
      folders.Nodup ∧
      ∀ path, path ∈ folders ↔ path ∈ augmentedFolders modulesPath fm ∨
        ∃ aName, Makes modulesPath fm calls aName ∧ hasPrefix aName.name "." = false ∧
          path = modulesPath ++ [swd aName]) ∧
    (∀ aName, Makes modulesPath fm calls aName →
      IsCommentary after (modulesPath ++ [swd aName]) aName) ∧
    ∀ q, (∀ aName, Makes modulesPath fm calls aName → ¬ modulesPath ++ [swd aName] <+: q) →
      after.lookup q = fm.lookup q := by
  intro after
  have hafter : After modulesPath fm calls after := after_calls hbase calls
  clear_value after
  refine ⟨⟨augmentedFolders modulesPath after, ?_, nodup_augmentedFolders, fun path => ?_⟩,
    hafter.commentary, hafter.elsewhere⟩
  · have hexists : after.fileExistsAtPath modulesPath = true := by
      rw [Files.fileExistsAtPath, hafter.base]
      rfl
    rw [SwordManager.initManager, if_pos hexists]
  · exact hafter.mem_augmentedFolders

/-- The files of an empty module: a count, and the texts and the index of each testament. -/
def moduleFiles : List (FileName × List UInt8) :=
  [(⟨"incfile", by decide, by decide, by decide⟩, [0, 0, 0, 0]),
    (⟨"ot", by decide, by decide, by decide⟩, []),
    (⟨"nt", by decide, by decide, by decide⟩, []),
    (⟨"ot.vss", by decide, by decide, by decide⟩, List.replicate (6 * 24115) 0),
    (⟨"nt.vss", by decide, by decide, by decide⟩, List.replicate (6 * 8246) 0)]

def writeFiles (path : Path) (files : List (FileName × List UInt8)) (fm : Files) : Files :=
  files.foldl (fun fm file => fm.writeFile (path ++ [file.1]) (.data file.2)) fm

theorem lookup_writeFiles {path q : Path} (h : ∀ name : FileName, q ≠ path ++ [name])
    (files : List (FileName × List UInt8)) :
    (writeFiles path files fm).lookup q = fm.lookup q := by
  induction files generalizing fm with
  | nil => rfl
  | cons file files ih =>
    rw [writeFiles, List.foldl_cons]
    exact ih.trans (Tree.lookup_writeFile_of_ne _ _ (h file.1))

def emptyFiles : RawFiles where
  createModule path := writeFiles path moduleFiles
  elsewhere path fm other _ h :=
    lookup_writeFiles (fun name => ne_append_of_not_below h [name]) _
  directory path fm h := by
    rw [lookup_writeFiles, h]
    exact fun name heq => List.cons_ne_nil name [] (List.self_eq_append_right.mp heq)

/-- A manager that keeps the folders it was given. -/
def givenFolders : SWMgr (List Path) where
  new path _ := [path]
  augmentModules folders path _ := path :: folders

def swordDir : FileName := ⟨"Sword", by decide, by decide, by decide⟩
def notes : FileName := ⟨"Notes", by decide, by decide, by decide⟩

theorem folders_after_calls_notes :
    let fm : Files := Tree.empty.createDirectory [swordDir]
    let calls := [initManager, createCommentaryWithName notes, createCommentaryWithName notes]
    let after := calls.foldl (FolderCall.step emptyFiles givenFolders [swordDir]) fm
    IsCommentary after [swordDir, swd notes] notes ∧
      ∃ folders : List Path, folders.Nodup ∧ [swordDir, swd notes] ∈ folders ∧
        (SwordManager.initManager givenFolders (some [swordDir]) after).1 =
          some (folders.reverse ++ [[swordDir]]) := by
  intro fm calls after
  have hbase : fm.lookup [swordDir] = some .directory := by decide
  have hmakes : Makes [swordDir] fm calls notes := ⟨by decide, by decide⟩
  obtain ⟨⟨folders, hstarted, hnodup, hmem⟩, hcommentary, -⟩ :=
    folders_after_calls emptyFiles givenFolders hbase calls
  refine ⟨hcommentary notes hmakes, folders, hnodup,
    (hmem _).mpr (Or.inr ⟨notes, hmakes, by decide, rfl⟩), ?_⟩
  rw [hstarted]
  exact congrArg some List.foldl_flip_cons_eq_append'

end FolderCall

end ObjCSword
