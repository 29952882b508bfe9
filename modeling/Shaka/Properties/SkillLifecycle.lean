import Shaka.Skills.Registry
import Shaka.Library.GuardedRuns

namespace Shaka.Properties
open Shaka.Core Skills CheckedSteps KeptState GuardedRuns

variable {registry registry' : SkillRegistry} {name : String} {record : SkillRecord}

def callSkill (registry : SkillRegistry) (call : SkillCall) : SkillRegistry := (call.run registry).2

-- What the governance of skills says of one record.
structure Governed (name : String) (record : SkillRecord) : Prop where
  named : record.manifest.name = name
  state : record.manifest.status = .candidate ∨ record.manifest.status = .active ∨
    record.manifest.status = .revoked
  approval : record.approval.isSome = true ↔ record.manifest.status = .active ∨
    record.manifest.status = .revoked
  artifact : ∀ approval ∈ record.approval, record.manifest.artifactSha256 = some approval.artifactSha256
  modest : ¬ (Capability.network ∈ record.manifest.permissions ∧
    Capability.externalMessaging ∈ record.manifest.permissions)

def AllGoverned (registry : SkillRegistry) : Prop := ∀ name record, registry.get name = some record →
    Governed name record

theorem governed_insert (all : AllGoverned registry) (governed : Governed name record) :
    AllGoverned (registry.insert name record) := by
  intro other entry present
  by_cases same : other = name
  · rw [same,SkillRegistry.get_insert] at present
    obtain rfl := Option.some.inj present
    exact same ▸ governed
  · rw [SkillRegistry.get_insert_ne _ _ same] at present
    exact all other entry present

theorem changes_governed (all : AllGoverned registry) (changes : Changes registry registry') :
    AllGoverned registry' := by
  cases changes with
  | none => exact all
  | registered now absent candidate modest =>
    exact governed_insert all ⟨rfl,.inl candidate,by simp [candidate],by simp,modest⟩
  | activated approval updatedAt present candidate =>
    have before := all _ _ present
    exact governed_insert all ⟨before.named,.inr (.inl rfl),by simp [SkillRegistry.activated],
      by simp [SkillRegistry.activated],before.modest⟩
  | revoked now present active =>
    have before := all _ _ present
    exact governed_insert all ⟨before.named,
      .inr (.inr rfl),by simp [SkillRegistry.revoked,before.approval,active],
      before.artifact,before.modest⟩

-- A revoked record is final, and it keeps its name taken.
theorem changes_revoked (changes : Changes registry registry') (present : registry.get name = some record)
    (revoked : record.manifest.status = .revoked) : registry'.get name = some record := by
  have elsewhere : ∀ (other : String) (entry : SkillRecord), other ≠ name →
      (registry.insert other entry).get name = some record := fun other entry differs => by
    rw [SkillRegistry.get_insert_ne _ _ (Ne.symm differs)]
    exact present
  cases changes with
  | none => exact present
  | registered now absent => exact elsewhere _ _ fun same => by rw [same,present] at absent; cases absent
  | activated approval updatedAt present' candidate =>
    refine elsewhere _ _ fun same => ?_
    rw [same,present] at present'
    obtain rfl := Option.some.inj present'
    rw [revoked] at candidate
    cases candidate
  | revoked now present' active =>
    refine elsewhere _ _ fun same => ?_
    rw [same,present] at present'
    obtain rfl := Option.some.inj present'
    rw [revoked] at active
    cases active

theorem calls_governed (calls : List SkillCall) (all : AllGoverned registry) :
    AllGoverned (play callSkill registry calls) := by
  induction calls generalizing registry with
  | nil => exact all
  | cons call rest ih => exact ih (changes_governed all (run_changes call registry))

theorem calls_revoked (calls : List SkillCall) (present : registry.get name = some record)
    (revoked : record.manifest.status = .revoked) :
    (play callSkill registry calls).get name = some record := by
  induction calls generalizing registry with
  | nil => exact present
  | cons call rest ih => exact ih (changes_revoked (run_changes call registry) present revoked)

-- In every state that calls from the empty registry lead to, whether they failed or not: the records are
-- governed, a revoked one stays as it is and its name is refused, and a call that fails changes nothing.
theorem skill_lifecycle (calls : List SkillCall) :
    AllGoverned (play callSkill .empty calls) ∧
    (∀ name record, (play callSkill .empty calls).get name = some record → record.manifest.status = .revoked →
      ∀ later, (play callSkill .empty (calls ++ later)).get name = some record ∧
        ∀ manifest now, manifest.name = name → (SkillCall.run (.registerCandidate manifest now)
          (play callSkill .empty (calls ++ later))).1 = .error (.alreadyExists name)) ∧
    ∀ call error, (SkillCall.run call (play callSkill .empty calls)).1 = .error error →
      (SkillCall.run call (play callSkill .empty calls)).2 = play callSkill .empty calls := by
  refine ⟨calls_governed calls ?_,fun name record present revoked later => ?_,fun call error failed =>
    run_failed call _ error failed⟩
  · intro name record present
    cases present
  · rw [play,List.foldl_append]
    have kept := calls_revoked later present revoked
    refine ⟨kept,fun manifest now same => ?_⟩
    rw [play,play] at kept
    have taken :
        require ((SkillRegistry.get (later.foldl callSkill (calls.foldl callSkill .empty))
        manifest.name).isNone = true)
        (SkillError.alreadyExists manifest.name) = .error (.alreadyExists manifest.name) := by
      rw [same,kept]
      rfl
    subst same
    generalize later.foldl callSkill (calls.foldl callSkill .empty) = registry at taken
    exact congrArg Prod.fst (bind_of_error
      (bind_of_ok rfl |>.trans (bind_of_error (congrArg (·,registry) taken))))

end Shaka.Properties
