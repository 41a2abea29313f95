import ObjCSword.Lib.Interleaving
import ObjCSword.SwordBible

/-!
# Reading a module from several callers

`textEntryForReference:renderType:` (SwordModule.mm) takes the lock of the object it is sent to,
puts the engine module on a key, pops the error, reads the text and gives the lock back; the one of
a Bible (SwordBible.mm) reads the heading after that. Here the methods are cut at these places, and
each piece is a step that is taken at once. What they share are the engine module, of which there is
one however many objects wrap it, and the locks.

A call begins and ends without the lock, so a thread that makes several calls is as good as several
callers, one after the other; that the lock is recursive does not show.
-/

namespace ObjCSword

open Sword

variable {ι Key : Type}

namespace SwordModule

/-- What a call of `textEntryForReference:renderType:` is given, and the lock of its object. -/
structure EntryCall where
  moduleLock : Nat
  aKeyString : Option String
  aType : RenderType

/-- Where a call is. -/
inductive CallPhase where
  | called
  | locked
  | positioned
  | checked
  | read (ret : Option SwordModuleTextEntry)
  | returned (ret : Option SwordModuleTextEntry)
deriving DecidableEq

/-- The callers that have the locks, and the state of the engine module. -/
structure Shared (ι Key : Type) where
  owner : Nat → Option ι
  m : ModuleState Key

/-- The next step of a caller's `textEntryForReference:renderType:`. -/
def turn (M : SWModule Key) (calls : ι → EntryCall) (i : ι) (s : Shared ι Key) :
    CallPhase → Shared ι Key × CallPhase
  | .called =>
    -- a lock that a caller has is waited for
    if s.owner (calls i).moduleLock = none then
      ({ s with owner := Function.update s.owner (calls i).moduleLock (some i) }, .locked)
    else (s, .called)
  | .locked => ({ s with m := setKeyString M (calls i).aKeyString s.m }, .positioned)
  | .positioned =>
    let (error, m) := error s.m
    ({ s with m := m }, if error then .read none else .checked)
  | .checked =>
    let (txt, m) := if (calls i).aType = .rendered then renderedText M s.m else strippedText M s.m
    ({ s with m := m }, .read (txt.map fun txt => { key := (calls i).aKeyString, text := txt }))
  | .read ret =>
    ({ s with owner := Function.update s.owner (calls i).moduleLock none }, .returned ret)
  | .returned ret => (s, .returned ret)

end SwordModule

namespace SwordBible

/-- Where a call is: the call of the superclass, and what was returned once it was. -/
structure CallPhase where
  superCall : SwordModule.CallPhase
  ret : Option (Option SwordModuleTextEntry)
deriving DecidableEq

/-- What is done with the entry of the superclass. -/
def addPreVerseHeading (B : BibleModule Key) (m : ModuleState Key)
    (superEntry : SwordModuleTextEntry) : SwordModuleTextEntry :=
  let ret := SwordBibleTextEntry.textEntryForKey superEntry.key superEntry.text
  if B.globalOption SW_OPTION_HEADINGS
      && SwordModule.hasFeature B.toSWModule SWMOD_FEATURE_HEADINGS then
    let preverseHeading := SwordModule.entryAttributeValuePreverse m
    if 0 < preverseHeading.length then { ret with preVerseHeading := some preverseHeading }
    else ret
  else ret

/-- The next step of a caller's `textEntryForReference:renderType:`. -/
def turn (B : BibleModule Key) (calls : ι → SwordModule.EntryCall) (i : ι)
    (s : SwordModule.Shared ι Key) (call : CallPhase) : SwordModule.Shared ι Key × CallPhase :=
  match call.superCall, call.ret with
  | .returned superEntry, none =>
    (s, { call with ret := some (superEntry.map (addPreVerseHeading B s.m)) })
  | superCall, ret =>
    let (s, superCall) := SwordModule.turn B.toSWModule calls i s superCall
    (s, ⟨superCall, ret⟩)

end SwordBible

end ObjCSword
