import ObjCSword.Laws.InstallSources
import ObjCSword.Lib.Handles
import ObjCSword.SourceOwners

/-!
# Install sources are not freed too early, nor twice

The wrappers are handles on engine objects, and the manager's map is the store that they give them
to (`Lib.Handles`): each call is some steps of that machine (`step_steps`). So whatever a client
does, no wrapper and no entry of the map ever stands for an object that was deleted
(`sources_alive`). When the manager goes as the last one, an object was deleted as often as the map
has it, or once if it was never added; so it is leaked where it was added and is not in the map any
more, and deleted twice where the map has it under two captions (`deletions_iff`).
-/

namespace ObjCSword.SourceOwners

open SwordInstallSourceManager Lib.Handles Relation

/-! ## The machine of handles -/

def handleOf (is : SwordInstallSource) : Handle := ⟨is.installSource, is.deleteOnDealloc⟩

/-- The object is stored under some caption. -/
def Stored (m : SwordInstallSourceManager) (r : Ref) : Prop := ∃ c, m.sources.lookup c = some r

/-- What the machine of handles sees, with the objects that were added. -/
def machine (s : SourceOwners) (added : Ref → Prop) : State where
  next := s.next
  freed := s.freed
  handles w := (s.wrappers w).map handleOf
  held := Stored s.manager
  given := added

/-- The call adds the object to the manager. -/
def Adds (s : SourceOwners) (r : Ref) : WrapperCall → Prop
  | .addInstallSource w _ | .updateInstallSource w =>
    ∃ is, s.wrappers w = some is ∧ r = is.installSource
  | _ => False

/-- The numbers from here on are unused. -/
def Unused (s : SourceOwners) : Prop := ∀ w, s.count ≤ w → s.wrappers w = none

theorem map_update (wrappers : Nat → Option SwordInstallSource) (w : Nat)
    (is : Option SwordInstallSource) :
    (fun w' => (Function.update wrappers w is w').map handleOf) =
      Function.update (fun w' => (wrappers w').map handleOf) w (is.map handleOf) := by
  funext w'
  by_cases h : w' = w
  · subst h
    rw [Function.update_self, Function.update_self]
  · rw [Function.update_of_ne h, Function.update_of_ne h]

theorem Unused.update {s : SourceOwners} (h : Unused s) {w : Nat} {is : SwordInstallSource}
    (hlive : s.wrappers w = some is) (is' : Option SwordInstallSource) :
    ∀ w', s.count ≤ w' → Function.update s.wrappers w is' w' = none := by
  intro w' hw'
  have hne : w' ≠ w := by
    rintro rfl
    rw [h w' hw'] at hlive
    cases hlive
  rw [Function.update_of_ne hne]
  exact h w' hw'

theorem Unused.wrap {s : SourceOwners} (h : Unused s) (is : SwordInstallSource) :
    Unused (s.wrap is) := by
  intro w hw
  have hle : s.count + 1 ≤ w := hw
  have hne : w ≠ s.count := by omega
  exact (Function.update_of_ne hne _ _).trans (h w (by omega))

/-! ## What a call is to the machine -/

/-- A call is some steps of the machine, and leaves the further numbers unused. -/
def Simulates (s s' : SourceOwners) (added added' : Ref → Prop) : Prop :=
  ReflTransGen Step (machine s added) (machine s' added') ∧ (Unused s → Unused s')

variable {s : SourceOwners} {added : Ref → Prop}

theorem Simulates.refl (s : SourceOwners) (added : Ref → Prop) : Simulates s s added added :=
  ⟨.refl, id⟩

theorem Simulates.trans {s' s'' : SourceOwners} {added' added'' : Ref → Prop}
    (h : Simulates s s' added added') (h' : Simulates s' s'' added' added'') :
    Simulates s s'' added added'' :=
  ⟨h.1.trans h'.1, h'.2 ∘ h.2⟩

theorem simulates_initWithType (hunused : Unused s) (aType : String) :
    Simulates s (s.initWithType aType) added added := by
  refine ⟨?_, fun hunused => hunused.wrap _⟩
  have hnew : (machine s added).handles s.count = none :=
    congrArg (Option.map handleOf) (hunused s.count (Nat.le_refl _))
  have hmade : machine (s.initWithType aType) added = { machine s added with
        next := s.next + 1
        handles := Function.update (machine s added).handles s.count (some ⟨s.next, true⟩) } :=
      congrArg (fun handles => { machine s added with next := s.next + 1, handles := handles })
        (map_update s.wrappers s.count (some ⟨s.next, true⟩))
  rw [hmade]
  exact .single (.make hnew)

/-- A stored object is wrapped. -/
theorem simulates_wrap (hunused : Unused s) {sis : Ref} (hstored : Stored s.manager sis) :
    Simulates s (s.wrap (.initWithSource sis)) added added := by
  refine ⟨?_, fun hunused => hunused.wrap _⟩
  have hnew : (machine s added).handles s.count = none :=
    congrArg (Option.map handleOf) (hunused s.count (Nat.le_refl _))
  have hviewed : machine (s.wrap (.initWithSource sis)) added = { machine s added with
        handles := Function.update (machine s added).handles s.count (some ⟨sis, false⟩) } :=
      congrArg (fun handles => { machine s added with handles := handles })
        (map_update s.wrappers s.count (some (.initWithSource sis)))
  rw [hviewed]
  exact .single (.view hnew hstored)

/-- A call that gives the map an object, perhaps in the place of others. -/
theorem simulates_give {m : SwordInstallSourceManager} {w : Nat} {is : SwordInstallSource}
    (hlive : s.wrappers w = some is)
    (hstored : ∀ r, Stored m r → r = is.installSource ∨ Stored s.manager r) :
    Simulates s { s with
        manager := m
        wrappers := Function.update s.wrappers w (some { is with deleteOnDealloc := false }) }
      added fun r => r = is.installSource ∨ added r := by
  refine ⟨?_, fun hunused => hunused.update hlive _⟩
  have hhandle : (machine s added).handles w = some (handleOf is) :=
    congrArg (Option.map handleOf) hlive
  have hgiven : machine { s with
        manager := m
        wrappers := Function.update s.wrappers w (some { is with deleteOnDealloc := false }) }
      (fun r => r = is.installSource ∨ added r) = { machine s added with
        handles := Function.update (machine s added).handles w
          (some { handleOf is with owns := false })
        given := fun r => r = (handleOf is).object ∨ added r
        held := Stored m } :=
    congrArg (fun handles => { machine s added with
        handles := handles
        given := fun r => r = is.installSource ∨ added r
        held := Stored m })
      (map_update s.wrappers w (some { is with deleteOnDealloc := false }))
  rw [hgiven]
  exact .tail (.single (.give hhandle)) (.letGo hstored)

theorem simulates_dealloc {w : Nat} {is : SwordInstallSource} (hlive : s.wrappers w = some is) :
    Simulates s (s.dealloc w is) added added := by
  refine ⟨?_, fun hunused => hunused.update hlive _⟩
  have hhandle : (machine s added).handles w = some (handleOf is) :=
    congrArg (Option.map handleOf) hlive
  have hdropped : machine (s.dealloc w is) added = { machine s added with
      handles := Function.update (machine s added).handles w none
      freed := if (handleOf is).owns then (handleOf is).object :: s.freed else s.freed } :=
    congrArg (fun handles => { machine s added with
        handles := handles
        freed := if is.deleteOnDealloc then is.installSource :: s.freed else s.freed })
      (map_update s.wrappers w none)
  rw [hdropped]
  exact .single (.drop hhandle)

/-- A call that changes objects, or lets the map have less. -/
theorem simulates_manager {m : SwordInstallSourceManager}
    (hstored : ∀ r, Stored m r → Stored s.manager r) :
    Simulates s { s with manager := m } added added :=
  ⟨.single (.letGo hstored), id⟩

theorem stored_of_add {m : SwordInstallSourceManager} {is : SwordInstallSource} (doReload : Bool)
    {r : Ref} (h : Stored (m.addInstallSource is doReload).1 r) :
    r = is.installSource ∨ Stored m r := by
  obtain ⟨c, hc⟩ := h
  rw [addInstallSource_sources, Dictionary.lookup_insert] at hc
  split at hc
  · exact Or.inl (Option.some.inj hc).symm
  · exact Or.inr ⟨c, hc⟩

theorem stored_of_remove {m : SwordInstallSourceManager} {is : SwordInstallSource} (doReload : Bool)
    {r : Ref} (h : Stored (m.removeInstallSource is doReload) r) : Stored m r := by
  obtain ⟨c, hc⟩ := h
  simp only [removeInstallSource, Dictionary.lookup_erase] at hc
  split at hc
  · cases hc
  · exact ⟨c, hc⟩

/-- Wrapping what is stored, one after the other. -/
theorem simulates_foldl_wrap {l : List Ref} (hunused : Unused s)
    (hstored : ∀ r ∈ l, Stored s.manager r) :
    Simulates s (l.foldl (fun s sis => s.wrap (.initWithSource sis)) s) added added := by
  induction l generalizing s with
  | nil => exact .refl s added
  | cons sis l ih =>
    rw [List.forall_mem_cons] at hstored
    exact (simulates_wrap hunused hstored.1).trans (ih (hunused.wrap _) hstored.2)

/-- What was added after a call. -/
def addedAfter (s : SourceOwners) (call : WrapperCall) (added : Ref → Prop) : Ref → Prop :=
  fun r => Adds s r call ∨ added r

theorem addedAfter_of_not {call : WrapperCall} (h : ∀ r, ¬ Adds s r call) :
    addedAfter s call added = added :=
  funext fun r => propext (or_iff_right (h r))

theorem addedAfter_of_adds {call : WrapperCall} {is : SwordInstallSource}
    (h : ∀ r, Adds s r call ↔ r = is.installSource) :
    addedAfter s call added = fun r => r = is.installSource ∨ added r :=
  funext fun r => propext (or_congr_left (h r))

theorem adds_iff {w : Nat} {is : SwordInstallSource} (hlive : s.wrappers w = some is) (r : Ref) :
    (∃ is, s.wrappers w = some is ∧ r = is.installSource) ↔ r = is.installSource := by
  rw [hlive]
  constructor
  · rintro ⟨is', heq, hr⟩
    cases heq
    exact hr
  · exact fun hr => ⟨is, rfl, hr⟩

theorem send_of_live {w : Nat} {is : SwordInstallSource} (hlive : s.wrappers w = some is)
    (f : SwordInstallSource → SourceOwners) : s.send w f = f is := by
  rw [send, hlive]

theorem send_of_dead {w : Nat} (hdead : s.wrappers w = none)
    (f : SwordInstallSource → SourceOwners) : s.send w f = s := by
  rw [send, hdead]

/-- A message to a wrapper, when there is one. -/
theorem simulates_send {w : Nat} {f : SwordInstallSource → SourceOwners}
    (h : ∀ is, s.wrappers w = some is → Simulates s (f is) added added) :
    Simulates s (s.send w f) added added := by
  cases hlive : s.wrappers w with
  | none =>
    rw [send_of_dead hlive]
    exact .refl s added
  | some is =>
    rw [send_of_live hlive]
    exact h is hlive

/-- A message with a wrapper that gives its object to the map. -/
theorem simulates_send_give {call : WrapperCall} {w : Nat} {f : SwordInstallSource → SourceOwners}
    (hadds : ∀ r, Adds s r call ↔ ∃ is, s.wrappers w = some is ∧ r = is.installSource)
    (h : ∀ is, s.wrappers w = some is →
      Simulates s (f is) added fun r => r = is.installSource ∨ added r) :
    Simulates s (s.send w f) added (addedAfter s call added) := by
  cases hlive : s.wrappers w with
  | none =>
    have hnot : ∀ r, ¬ Adds s r call := by
      intro r hadd
      obtain ⟨is, his, -⟩ := (hadds r).mp hadd
      rw [hlive] at his
      cases his
    rw [send_of_dead hlive, addedAfter_of_not hnot]
    exact .refl s added
  | some is =>
    rw [send_of_live hlive, addedAfter_of_adds fun r => (hadds r).trans (adds_iff hlive r)]
    exact h is hlive

/-- **Every call is some steps of the machine of handles.** -/
theorem step_simulates (hunused : Unused s) (call : WrapperCall) :
    Simulates s (s.step call) added (addedAfter s call added) := by
  cases call with
  | init =>
    rw [addedAfter_of_not fun _ => id]
    exact simulates_initWithType hunused ""
  | initWithType aType =>
    rw [addedAfter_of_not fun _ => id]
    exact simulates_initWithType hunused aType
  | set w edit =>
    rw [addedAfter_of_not fun _ => id]
    exact simulates_send fun is _ => simulates_manager fun _ h => h
  | setType w aType =>
    rw [addedAfter_of_not fun _ => id]
    exact simulates_send fun is _ => simulates_manager fun _ h => h
  | addInstallSource w doReload =>
    exact simulates_send_give (fun _ => Iff.rfl) fun is hlive =>
      simulates_give hlive fun _ h => stored_of_add doReload h
  | removeInstallSource w doReload =>
    rw [addedAfter_of_not fun _ => id]
    exact simulates_send fun is _ => simulates_manager fun _ h => stored_of_remove doReload h
  | updateInstallSource w =>
    exact simulates_send_give (fun _ => Iff.rfl) fun is hlive =>
      simulates_give hlive fun _ h => (stored_of_add false h).imp_right (stored_of_remove false)
  | allInstallSources =>
    rw [addedAfter_of_not fun _ => id]
    have hlisted : Simulates s { s with manager := s.manager.allInstallSources.2 } added added :=
      simulates_manager fun _ h => h
    have hwrapped : Simulates { s with manager := s.manager.allInstallSources.2 }
        (s.step .allInstallSources) added added :=
      simulates_foldl_wrap hunused fun r hr => (mem_stored_iff s.manager r).mp hr
    exact hlisted.trans hwrapped
  | dealloc w =>
    rw [addedAfter_of_not fun _ => id]
    exact simulates_send fun is hlive => simulates_dealloc hlive

/-! ## Runs -/

/-- Some call of the run adds the object. -/
def AddedIn : SourceOwners → List WrapperCall → Ref → Prop
  | _, [], _ => False
  | s, call :: calls, r => Adds s r call ∨ AddedIn (s.step call) calls r

theorem run_simulates (hunused : Unused s) (calls : List WrapperCall) :
    Simulates s (s.run calls) added fun r => AddedIn s calls r ∨ added r := by
  induction calls generalizing s added with
  | nil =>
    have hsame : (fun r => AddedIn s [] r ∨ added r) = added :=
      funext fun r => propext (or_iff_right id)
    rw [hsame]
    exact .refl s added
  | cons call calls ih =>
    have hcall := @step_simulates s added hunused call
    have hrest := @ih (s.step call) (addedAfter s call added) (hcall.2 hunused)
    have hsame : (fun r => AddedIn (s.step call) calls r ∨ addedAfter s call added r) =
        fun r => AddedIn s (call :: calls) r ∨ added r := by
      funext r
      rw [addedAfter, AddedIn, ← or_assoc, or_comm (a := AddedIn (s.step call) calls r)]
    rw [hsame] at hrest
    exact hcall.trans hrest

/-- What a loop that stores objects under their captions stores. -/
theorem lookup_foldl_insert (captionOf : Ref → String) {l : List Ref} {sources : Dictionary Ref}
    {c : String} {r : Ref}
    (h : AList.lookup c (l.foldl (fun sources r => sources.insert (captionOf r) r) sources) =
      some r) : (r ∈ l ∧ captionOf r = c) ∨ AList.lookup c sources = some r := by
  induction l generalizing sources with
  | nil => exact Or.inr h
  | cons a l ih =>
    rcases ih h with ⟨hmem, hcaption⟩ | hlookup
    · exact Or.inl ⟨List.mem_cons_of_mem _ hmem, hcaption⟩
    · rw [Dictionary.lookup_insert] at hlookup
      split at hlookup
      · next hkey =>
        cases hlookup
        exact Or.inl ⟨List.mem_cons_self, hkey.symm⟩
      · exact Or.inr hlookup

theorem lookup_initial {configured : List InstallSource} {c : String} {r : Ref}
    (h : (initial configured).manager.sources.lookup c = some r) :
    r < configured.length ∧ ((initial configured).manager.memory r).caption = c := by
  rcases lookup_foldl_insert _ h with ⟨hmem, hcaption⟩ | hempty
  · exact ⟨List.mem_range.mp hmem, hcaption⟩
  · rw [AList.lookup_empty] at hempty
    cases hempty

/-- The machine after a run. -/
theorem sound_run (configured : List InstallSource) (calls : List WrapperCall) :
    Sound (machine ((initial configured).run calls)
      fun r => AddedIn (initial configured) calls r ∨ r < configured.length) := by
  have hstart : Sound (machine (initial configured) fun r => r < configured.length) :=
    sound_initial fun r ⟨c, hc⟩ => (lookup_initial hc).1
  have hunused : Unused (initial configured) := fun _ _ => rfl
  exact hstart.steps (run_simulates hunused calls).1

/-- **No install source is used after it was deleted**, and none is deleted twice, whatever a client
does: the object of every wrapper there is and of every entry of the map was made and is not
deleted. -/
theorem sources_alive (configured : List InstallSource) (calls : List WrapperCall) :
    let s := (initial configured).run calls
    (∀ w is, s.wrappers w = some is → is.installSource < s.next ∧ is.installSource ∉ s.freed) ∧
      (∀ c r, s.manager.sources.lookup c = some r → r < s.next ∧ r ∉ s.freed) ∧
      s.freed.Nodup := by
  have hsound := sound_run configured calls
  exact ⟨fun w is hlive =>
      hsound.handle_alive w (handleOf is) (congrArg (Option.map handleOf) hlive),
    fun c r hstored => hsound.held_alive r ⟨c, hstored⟩, hsound.freed_once⟩

/-! ## What is deleted in the end -/

/-- The object is stored under two captions. -/
def StoredTwice (m : SwordInstallSourceManager) (r : Ref) : Prop :=
  ∃ c c', c ≠ c' ∧ m.sources.lookup c = some r ∧ m.sources.lookup c' = some r

theorem count_stored_eq_zero_iff (m : SwordInstallSourceManager) (r : Ref) :
    (deletedWithManager m).count r = 0 ↔ ¬ Stored m r := by
  rw [List.count_eq_zero]
  exact not_congr (mem_stored_iff m r)

theorem one_lt_count_stored_iff (m : SwordInstallSourceManager) (r : Ref) :
    1 < (deletedWithManager m).count r ↔ StoredTwice m r := by
  let keys := m.sources.entries.filter fun e => e.2 == r
  have hcount : (deletedWithManager m).count r = keys.length := by
    rw [deletedWithManager, List.count, List.countP_map, List.countP_eq_length_filter]
    rfl
  have hmem : ∀ c, ⟨c, r⟩ ∈ keys ↔ m.sources.lookup c = some r := by
    intro c
    rw [List.mem_filter]
    exact (and_iff_left (beq_self_eq_true r)).trans AList.mem_lookup_iff.symm
  have hvalue : ∀ e ∈ keys, e.2 = r := fun e he => beq_iff_eq.mp (List.mem_filter.mp he).2
  have hnodup : keys.Nodup := m.sources.nodupKeys.nodup.filter _
  rw [hcount]
  constructor
  · intro htwo
    obtain ⟨⟨c, r₁⟩, ⟨c', r₂⟩, rest, hkeys⟩ : ∃ e e' rest, keys = e :: e' :: rest := by
      cases hkeys : keys with
      | nil => rw [hkeys] at htwo; exact absurd htwo (by simp)
      | cons e l =>
        cases l with
        | nil => rw [hkeys] at htwo; exact absurd htwo (by simp)
        | cons e' rest => exact ⟨e, e', rest, rfl⟩
    have hfirst : ⟨c, r₁⟩ ∈ keys := by rw [hkeys]; exact List.mem_cons_self
    have hsecond : ⟨c', r₂⟩ ∈ keys := by
      rw [hkeys]
      exact List.mem_cons_of_mem _ List.mem_cons_self
    obtain rfl : r₁ = r := hvalue _ hfirst
    obtain rfl : r₂ = r₁ := hvalue _ hsecond
    refine ⟨c, c', ?_, (hmem c).mp hfirst, (hmem c').mp hsecond⟩
    rintro rfl
    rw [hkeys] at hnodup
    exact (List.nodup_cons.mp hnodup).1 List.mem_cons_self
  · rintro ⟨c, c', hne, hfirst, hsecond⟩
    have hpair : [(⟨c, r⟩ : Sigma fun _ => Ref), ⟨c', r⟩].Nodup := by
      rw [List.nodup_cons, List.mem_singleton]
      exact ⟨fun heq => hne (congrArg Sigma.fst heq), List.nodup_singleton _⟩
    have hsubset : [(⟨c, r⟩ : Sigma fun _ => Ref), ⟨c', r⟩] ⊆ keys := by
      rw [List.cons_subset, List.cons_subset]
      exact ⟨(hmem c).mpr hfirst, (hmem c').mpr hsecond, List.nil_subset _⟩
    exact (List.subperm_of_subset hpair hsubset).length_le

/-- How often an object is deleted by its wrapper: once, unless the map was given it. -/
theorem count_freed {configured : List InstallSource} {calls : List WrapperCall}
    (hdone : ∀ w, ((initial configured).run calls).wrappers w = none) {r : Ref}
    (hmade : r < ((initial configured).run calls).next)
    [Decidable (AddedIn (initial configured) calls r ∨ r < configured.length)] :
    ((initial configured).run calls).freed.count r =
      if AddedIn (initial configured) calls r ∨ r < configured.length then 0 else 1 := by
  have hsound := sound_run configured calls
  have hdropped : ∀ w, (machine ((initial configured).run calls) fun r =>
      AddedIn (initial configured) calls r ∨ r < configured.length).handles w = none :=
    fun w => congrArg (Option.map handleOf) (hdone w)
  have hfreed := hsound.freed_iff hdropped hmade
  split
  · next hgiven => exact List.count_eq_zero.mpr fun hmem => hfreed.mp hmem hgiven
  · next hgiven => exact List.count_eq_one_of_mem hsound.freed_once (hfreed.mpr hgiven)

/-- **How often an install source is deleted.** Take any run after which all wrappers are gone, and
then let the manager go. An engine object was never deleted exactly if it was given to the map, by a
call or from the start, and is not there any more; and it was deleted more than once exactly if the
map had it under two captions. -/
theorem deletions_iff (configured : List InstallSource) (calls : List WrapperCall)
    (hdone : ∀ w, ((initial configured).run calls).wrappers w = none) {r : Ref}
    (hmade : r < ((initial configured).run calls).next) :
    (((initial configured).run calls).deletions r = 0 ↔
      (AddedIn (initial configured) calls r ∨ r < configured.length) ∧
        ¬ Stored ((initial configured).run calls).manager r) ∧
    (1 < ((initial configured).run calls).deletions r ↔
      StoredTwice ((initial configured).run calls).manager r) := by
  classical
  have hstored := count_stored_eq_zero_iff ((initial configured).run calls).manager r
  have htwice := one_lt_count_stored_iff ((initial configured).run calls).manager r
  rw [deletions, count_freed hdone hmade]
  split
  · next hgiven =>
    rw [Nat.zero_add, and_iff_right hgiven]
    exact ⟨hstored, htwice⟩
  · next hgiven =>
    -- what was not given to the map is not there
    have hnot : ¬ Stored ((initial configured).run calls).manager r :=
      fun h => hgiven ((sound_run configured calls).held_given r h)
    rw [hstored.mpr hnot] at htwice ⊢
    exact ⟨iff_of_false (by decide) fun h => hgiven h.1, iff_of_false (by decide) fun h =>
      absurd (htwice.mpr h) (by decide)⟩

/-- A source that is added, renamed and updated, and its wrapper let go. -/
def renameRun : List WrapperCall :=
  [.initWithType "FTP", .set 0 (.setCaption "test"), .addInstallSource 0 true,
    .set 0 (.setCaption "renamed"), .updateInstallSource 0, .dealloc 0]

/-- It is deleted twice. -/
theorem deletions_rename :
    1 < ((initial []).run renameRun).deletions 0 ↔
      StoredTwice ((initial []).run renameRun).manager 0 :=
  (deletions_iff [] renameRun (fun w => by cases w <;> rfl) (by decide)).2

example : ((initial []).run renameRun).deletions 0 = 2 := by decide

/-! ## Captions that stay -/

/-- No stored source is given another caption. -/
def KeepsCaption (s : SourceOwners) : WrapperCall → Prop
  | .set w (.setCaption aCaption) => ∀ is, s.wrappers w = some is →
    Stored s.manager is.installSource → aCaption = is.caption s.manager.memory
  | _ => True

theorem keysMatch_send {w : Nat} {f : SwordInstallSource → SourceOwners}
    (h : KeysMatch s.manager) (hf : ∀ is, s.wrappers w = some is → KeysMatch (f is).manager) :
    KeysMatch (s.send w f).manager := by
  cases hlive : s.wrappers w with
  | none =>
    rw [send_of_dead hlive]
    exact h
  | some is =>
    rw [send_of_live hlive]
    exact hf is hlive

theorem foldl_wrap_manager (l : List Ref) (s : SourceOwners) :
    (l.foldl (fun s sis => s.wrap (.initWithSource sis)) s).manager = s.manager := by
  induction l generalizing s with
  | nil => rfl
  | cons sis l ih => exact ih _

theorem keysMatch_initWithType (h : KeysMatch s.manager)
    (hmade : ∀ r, Stored s.manager r → r < s.next) (aType : String) :
    KeysMatch (s.initWithType aType).manager := by
  intro c r hc
  have hne : r ≠ s.next := (Nat.ne_of_lt (hmade r ⟨c, hc⟩))
  show (Function.update s.manager.memory s.next (newInstallSource aType) r).caption = c
  rw [Function.update_of_ne hne]
  exact h c r hc

theorem keysMatch_step (h : KeysMatch s.manager) (hmade : ∀ r, Stored s.manager r → r < s.next)
    {call : WrapperCall} (ok : KeepsCaption s call) : KeysMatch (s.step call).manager := by
  cases call with
  | init => exact keysMatch_initWithType h hmade ""
  | initWithType aType => exact keysMatch_initWithType h hmade aType
  | set w edit =>
    refine keysMatch_send h fun is hlive => h.edit is [edit] fun hstored => ?_
    show (edit.apply is s.manager.memory is.installSource).caption = is.caption s.manager.memory
    cases edit with
    | setCaption aCaption =>
      rw [SourceEdit.apply, SwordInstallSource.setCaption, Function.update_self]
      exact ok is hlive hstored
    | setSource aSource =>
      rw [SourceEdit.apply, SwordInstallSource.setSource, Function.update_self]
      rfl
    | setDirectory aDir =>
      rw [SourceEdit.apply, SwordInstallSource.setDirectory, Function.update_self]
      rfl
  | setType w aType =>
    refine keysMatch_send h fun is _ c r hc => ?_
    exact (setType_caption is aType s.manager.memory r).trans (h c r hc)
  | addInstallSource w doReload => exact keysMatch_send h fun is _ => h.add is doReload
  | removeInstallSource w doReload => exact keysMatch_send h fun is _ => h.remove is doReload
  | updateInstallSource w => exact keysMatch_send h fun is _ => (h.remove is false).add is false
  | allInstallSources =>
    rw [step, foldl_wrap_manager]
    exact h.list
  | dealloc w => exact keysMatch_send h fun is _ => h

/-- Where stored sources keep their captions the map keeps its keys. -/
theorem keysMatch_run {configured : List InstallSource} {calls : List WrapperCall}
    (ok : Lib.Run.Always step KeepsCaption (initial configured) calls) :
    KeysMatch ((initial configured).run calls).manager := by
  have hall : ∀ (calls : List WrapperCall) (s : SourceOwners) (added : Ref → Prop),
      Sound (machine s added) → Unused s → KeysMatch s.manager →
        Lib.Run.Always step KeepsCaption s calls → KeysMatch (s.run calls).manager := by
    intro calls
    induction calls with
    | nil => exact fun s added _ _ h _ => h
    | cons call calls ih =>
      intro s added hsound hunused h ok
      have hcall := @step_simulates s added hunused call
      exact ih _ _ (hsound.steps hcall.1) (hcall.2 hunused)
        (keysMatch_step h (fun r hr => (hsound.held_alive r hr).1) ok.1) ok.2
  have hstart : Sound (machine (initial configured) fun r => r < configured.length) :=
    sound_initial fun r ⟨c, hc⟩ => (lookup_initial hc).1
  exact hall calls _ _ hstart (fun _ _ => rfl) (fun c r hc => (lookup_initial hc).2) ok

/-- **Nothing is deleted twice where stored sources keep their captions**, and what is in the map
when all wrappers are gone is deleted with the manager, once. -/
theorem deleted_once (configured : List InstallSource) (calls : List WrapperCall)
    (ok : Lib.Run.Always step KeepsCaption (initial configured) calls)
    (hdone : ∀ w, ((initial configured).run calls).wrappers w = none) {r : Ref}
    (hmade : r < ((initial configured).run calls).next) :
    ((initial configured).run calls).deletions r ≤ 1 ∧
      (Stored ((initial configured).run calls).manager r →
        ((initial configured).run calls).deletions r = 1) := by
  have hkeys := keysMatch_run ok
  obtain ⟨hzero, htwice⟩ := deletions_iff configured calls hdone hmade
  have hnot : ¬ 1 < ((initial configured).run calls).deletions r := by
    intro hlt
    obtain ⟨c, c', hne, hc, hc'⟩ := htwice.mp hlt
    exact hne (hkeys.unique hc hc')
  refine ⟨Nat.not_lt.mp hnot, fun hstored => ?_⟩
  have hsome : ((initial configured).run calls).deletions r ≠ 0 :=
    fun h => (hzero.mp h).2 hstored
  omega

/-- A source that is added, removed and added again. -/
def againRun : List WrapperCall :=
  [.initWithType "FTP", .set 0 (.setCaption "test"), .addInstallSource 0 true,
    .removeInstallSource 0 true, .addInstallSource 0 true, .dealloc 0]

theorem keepsCaption_againRun : Lib.Run.Always step KeepsCaption (initial []) againRun := by
  refine ⟨trivial, fun is _ hstored => ?_, trivial, trivial, trivial, trivial, trivial⟩
  obtain ⟨c, hc⟩ := hstored
  change AList.lookup c (∅ : Dictionary Ref) = some is.installSource at hc
  rw [AList.lookup_empty] at hc
  cases hc

theorem deleted_once_again :
    ((initial []).run againRun).deletions 0 ≤ 1 ∧
      (Stored ((initial []).run againRun).manager 0 →
        ((initial []).run againRun).deletions 0 = 1) :=
  deleted_once [] againRun keepsCaption_againRun (fun w => by cases w <;> rfl) (by decide)

end ObjCSword.SourceOwners
