import ObjCSword.BibleLock
import ObjCSword.Laws.Contexts

/-!
# What the lock of the class is good for

`bibleLock` is tested and made without a lock of its own. Once it is there it keeps the callers of
the class methods apart; two callers of which neither has found it may be at work at once
(`class_calls_alone_iff`), and a third one may wait for a lock that nobody gives back
(`class_call_lost`).
-/

namespace ObjCSword.SwordBible

open Sword Lib.LazyObject Lib.Interleaving

variable {Key ι : Type} [DecidableEq ι] (V : VerseKey Key) (P : VersePosition Key)
  (getChapter : Key → Int)

/-- Where the callers of the class are after some turns, from a state of the variable. -/
def classAfter (calls : ι → ClassCall) (bibleLock : Variable) (schedule : List ι) :
    State ι (LockShared ι) (LockPhase ClassAnswer) :=
  run (classTurn V P getChapter calls) (lockStart bibleLock) schedule

/-- **`decodeRef:` and `firstRefName:` keep each other out**, whatever is called and however the
turns fall, exactly if the lock of the class was made before or there is only one caller. -/
theorem class_calls_alone_iff (calls : ι → ClassCall) (bibleLock : Variable) :
    (∀ schedule i j, ((classAfter V P getChapter calls bibleLock schedule).callers i).Inside →
      ((classAfter V P getChapter calls bibleLock schedule).callers j).Inside → i = j) ↔
    bibleLock.object ≠ none ∨ Subsingleton ι :=
  alone_iff bibleLock

/-- **A class method may never return**: where the lock of the class was not made before, any three
callers have turns after which the call of one of them waits for a lock, and goes on waiting for it
whatever turns follow. -/
theorem class_call_lost (calls : ι → ClassCall) {bibleLock : Variable}
    (hnone : bibleLock.object = none) {i j k : ι} (hij : i ≠ j) (hik : i ≠ k) (hjk : j ≠ k) :
    ∃ schedule : List ι, ∀ later,
      (classAfter V P getChapter calls bibleLock (schedule ++ later)).callers k =
        .getting (.got (some bibleLock.made)) :=
  waits_forever hnone hij hik hjk

theorem class_call_lost_three :
    ∃ schedule : List (Fin 3), ∀ later,
      (classAfter completingKey ⟨id, fun _ => 1, fun _ => 1⟩ (fun _ => 1)
        (fun _ => .firstRefName "Rut") ⟨none, 0⟩ (schedule ++ later)).callers 2 =
        .getting (.got (some 0)) :=
  class_call_lost completingKey ⟨id, fun _ => 1, fun _ => 1⟩ (fun _ => 1)
    (fun _ => .firstRefName "Rut") rfl (by decide : (0 : Fin 3) ≠ 1) (by decide) (by decide)

end ObjCSword.SwordBible
