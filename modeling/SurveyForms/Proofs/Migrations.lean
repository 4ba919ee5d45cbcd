import Mathlib.Data.List.Infix
import SurveyForms.Registry.Builds

/-! Upgrades of a store. An upgrade does what its pending statements do, up to the first that fails,
and the number it leaves is the place it came to. So an upgrade can be cut off anywhere and taken up
again. -/
namespace SurveyForms.Versioned

variable {μ δ ε : Type} {engine : Engine μ δ ε}

def numbered (n : Nat) (db : Versioned δ) : Versioned δ := { db with versions := .row n }

/-- What statements make of a store that is under a number. Each finds what those in front of it
have left, under the number they have brought it to. -/
def replay (engine : Engine μ δ ε) : Nat → List μ → Versioned δ → Except ε (Versioned δ)
  | _, [], db => .ok db
  | n, m :: ms, db => do
    let next ← engine.exec m db
    replay engine (n + 1) ms (next.numbered (n + 1))

/-- How an upgrade ends: all pending statements have been run and the number is that of the list,
or those in front of one that fails have been run and the number is theirs. -/
inductive Upgraded (engine : Engine μ δ ε) (ms : List μ) (db : Versioned δ) :
    Versioned δ × Option (UpgradeError ε) → Prop
  | all {reached : Versioned δ} (hversions : reached.versions = .row ms.length)
      (h : replay engine db.version (ms.drop db.version) (db.numbered db.version) = .ok reached) :
      Upgraded engine ms db (reached, none)
  | upTo {k : Nat} {m : μ} {reached : Versioned δ} {cause : ε} (hversion : db.version ≤ k)
      (hm : ms[k]? = some m) (hversions : reached.versions = .row k)
      (hbefore : replay engine db.version ((ms.take k).drop db.version) (db.numbered db.version) =
        .ok reached)
      (hfails : engine.exec m reached = .error cause) :
      Upgraded engine ms db (reached, some (.migration ⟨k + 1, cause⟩))

namespace Upgraded

variable {ms : List μ} {db : Versioned δ} {r : Versioned δ × Option (UpgradeError ε)}

/-- The store that an upgrade leaves is the one that its first statements lead to. -/
theorem reached (h : Upgraded engine ms db r) (hversion : db.version ≤ ms.length) :
    ∃ k, r.1.versions = .row k ∧ db.version ≤ k ∧ k ≤ ms.length ∧
      replay engine db.version ((ms.take k).drop db.version) (db.numbered db.version) =
        .ok r.1 := by
  cases h with
  | all hversions h =>
    exact ⟨ms.length, hversions, hversion, Nat.le_refl _, by rwa [List.take_length]⟩
  | @upTo k m reached cause hk hm hversions hbefore _ =>
    exact ⟨k, hversions, hk, (List.getElem?_eq_some_iff.mp hm).1.le, hbefore⟩

end Upgraded

end SurveyForms.Versioned
