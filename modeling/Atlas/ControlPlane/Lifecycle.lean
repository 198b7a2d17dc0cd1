import Atlas.ControlPlane.DatabaseStorage

/-!
# Forgetting and the lifecycle policy: `forgetting/engine.py`, `policies/memory/lifecycle-policy.yaml`

* `lifecyclePolicy`, `ForgettingRule.permits` : the policy file, and what it permits;
* `isForgettingAllowed_iff` : what the engine allows, compared with it;
* `Follows` : what a call to forget owes to the policy, to its caller, to the sink and to the other records;
* `forget_follows_iff` : when it does.
-/

namespace Atlas.ControlPlane
open Raising
open Atlas.Memory (MemoryType)

/-! ## The policy -/

/-- The values of `automatic`. -/
inductive AutomaticRule
  | allowed
  | policyControlled
  | prohibited
  deriving DecidableEq

/-- The entry `forgetting` of a memory type. -/
structure ForgettingRule where
  allowed : Bool
  automatic : AutomaticRule
  explicitPolicyRequired : Bool := false

/-- The entry `memory_types` of the file. -/
def lifecyclePolicy : MemoryType → ForgettingRule
  | .working => { allowed := true, automatic := .allowed }
  | .episodic => { allowed := true, automatic := .policyControlled }
  | .semantic => { allowed := true, automatic := .prohibited, explicitPolicyRequired := true }
  | .procedural => { allowed := true, automatic := .prohibited, explicitPolicyRequired := true }

/-- A request to forget, with or without a policy, by hand or automatic. -/
def ForgettingRule.permits (rule : ForgettingRule) (explicitPolicyId : Option String) (automatic : Bool) : Bool :=
  let named := !Forgetting.lacksPolicy explicitPolicyId
  rule.allowed && (!rule.explicitPolicyRequired || named) &&
    match rule.automatic with
    | .allowed => true
    | .policyControlled => !automatic || named
    | .prohibited => !automatic

variable {α τ : Type}

/-- The engine allows what the policy permits, and automatic forgetting of semantic memory besides. -/
theorem isForgettingAllowed_iff (record : MemoryRecord α) (explicitPolicyId : Option String) (automatic : Bool) :
    (Forgetting.isForgettingAllowed record explicitPolicyId automatic).1 = true ↔
      (lifecyclePolicy record.memoryType).permits explicitPolicyId automatic = true ∨
        record.memoryType = .semantic ∧ automatic = true ∧ Forgetting.lacksPolicy explicitPolicyId = false := by
  unfold Forgetting.isForgettingAllowed
  cases record.memoryType <;> cases automatic <;> cases hpolicy : Forgetting.lacksPolicy explicitPolicyId <;>
    simp [lifecyclePolicy, ForgettingRule.permits, hpolicy]

/-! ## One call -/

/-- What a call to forget with the answer `deleted` owes for a stored record. -/
structure Follows (table : τ → Table α) (record : MemoryRecord α) (explicitPolicyId : Option String)
    (automatic : Bool) (w : World τ) (deleted : Bool) (w' : World τ) : Prop where
  policy : table w'.storage record.memoryId = none →
    (lifecyclePolicy record.memoryType).permits explicitPolicyId automatic = true
  answer : deleted = true ↔ table w'.storage record.memoryId = none
  audited : ∃ event, w'.audit = w.audit ++ [event] ∧
    (event.result = .success ↔ table w'.storage record.memoryId = none)
  others : ∀ memoryId, memoryId ≠ record.memoryId.val → table w'.storage memoryId = table w.storage memoryId

/-- The engine finds the record, in a storage that is then at `s`, and goes on to delete it. -/
def Reaches (storage : Storage α τ) (record : MemoryRecord α) (explicitPolicyId : Option String) (automatic : Bool)
    (w : World τ) (s : τ) : Prop :=
  (storage.retrieve record.memoryId).run w.storage = .ok (some record) s ∧
    (Forgetting.isForgettingAllowed record explicitPolicyId automatic).1 = true

/-- The storage answers that it has deleted the record. -/
def AnswersDeleted (storage : Storage α τ) (memoryId : String) (s : τ) : Prop :=
  ∃ s', (storage.delete memoryId).run s = .ok true s'

/-- The record is gone behind the call of the storage. -/
def Deletes (storage : Storage α τ) (table : τ → Table α) (memoryId : String) (s : τ) : Prop :=
  table (after (storage.delete memoryId) s) memoryId = none

section
variable {storage : Storage α τ} {table : τ → Table α} {record : MemoryRecord α} {explicitPolicyId : Option String}
  {automatic : Bool} {w w' : World τ}

/-- The table is as before, and the record is there. -/
theorem Follows.of_kept {event : AuditRecord} (hstored : table w.storage record.memoryId = some record)
    (htable : table w'.storage = table w.storage) (haudit : w'.audit = w.audit ++ [event])
    (hresult : event.result = .failure) : Follows table record explicitPolicyId automatic w false w' where
  policy := by
    rw [htable, hstored]
    exact nofun
  answer := by
    rw [htable, hstored]
    exact iff_of_false nofun nofun
  audited := by
    refine ⟨event, haudit, ?_⟩
    rw [htable, hstored, hresult]
    exact iff_of_false nofun nofun
  others _ _ := by rw [htable]

/-- The storage has been asked to delete the record, and the answer has been audited. -/
theorem follows_iff {deleted : Bool} {event : AuditRecord}
    (htable : Table.Removed record.memoryId (table w.storage) (table w'.storage))
    (haudit : w'.audit = w.audit ++ [event]) (hresult : event.result = .success ↔ deleted = true) :
    Follows table record explicitPolicyId automatic w deleted w' ↔
      (deleted = true ↔ table w'.storage record.memoryId = none) ∧ (table w'.storage record.memoryId = none →
        (lifecyclePolicy record.memoryType).permits explicitPolicyId automatic = true) := by
  constructor
  · intro h
    exact ⟨h.answer, h.policy⟩
  · intro h
    refine ⟨h.2, h.1, ⟨event, haudit, hresult.trans h.1⟩, fun memoryId hne => ?_⟩
    rcases htable with hsame | hremoved
    · rw [hsame]
    · rw [hremoved, Function.update_of_ne hne]

/-- The answer of the storage is audited. -/
theorem wp_auditForget_iff {operationId agentId : String} (hoperation : operationId ≠ "") (hagent : agentId ≠ "")
    {deleted : Bool} {metadata : List (String × MetaValue)} {result : AuditResult} {E : Raised → World τ → Prop}
    (hresult : result = .success ↔ deleted = true) (haudit : w'.audit = w.audit)
    (htable : Table.Removed record.memoryId (table w.storage) (table w'.storage)) :
    wp (Forgetting.auditForget quiet record.memoryId operationId agentId explicitPolicyId automatic result metadata)
        (fun _ w'' => Follows table record explicitPolicyId automatic w deleted w'') E w' ↔
      (deleted = true ↔ table w'.storage record.memoryId = none) ∧ (table w'.storage record.memoryId = none →
        (lifecyclePolicy record.memoryType).permits explicitPolicyId automatic = true) := by
  rw [Forgetting.auditForget, wp_emit_quiet hoperation hagent record.memoryId.2]
  exact follows_iff htable (congrArg (· ++ [_]) haudit) hresult

/-- The metadata of the record about a deletion, but for its end. -/
def deletionMetadata (record : MemoryRecord α) : Except Raised Bool → List (String × MetaValue)
  | .ok deleted =>
    [("reason", .text (if deleted then "deleted" else "storage_delete_returned_false")),
      ("memory_type", .text (Forgetting.typeValue record.memoryType))]
  | .error exc =>
    [("reason", .text "storage_delete_exception"), ("error", .text (Forgetting.textOf exc)),
      ("memory_type", .text (Forgetting.typeValue record.memoryType))]

/-- The storage is asked to delete the record, and its answer is audited. -/
theorem wp_deletion_iff (hkeyed : Keyed storage table) {operationId agentId : String} (hoperation : operationId ≠ "")
    (hagent : agentId ≠ "") (metadata : Except Raised Bool → List (String × MetaValue))
    {w₁ : World τ} (haudit : w₁.audit = w.audit) (htable : table w₁.storage = table w.storage) :
    wp (Kernel.delete storage record.memoryId)
        (fun deleted w₂ => wp (Forgetting.auditForget quiet record.memoryId operationId agentId explicitPolicyId
            automatic (if deleted = true then .success else .failure) (metadata (.ok deleted)))
          (fun _ w' => Follows table record explicitPolicyId automatic w deleted w') (fun _ _ => False) w₂)
        (fun exc w₂ => wp (Forgetting.auditForget quiet record.memoryId operationId agentId explicitPolicyId automatic
            .failure (metadata (.error exc)))
          (fun _ w' => Follows table record explicitPolicyId automatic w false w') (fun _ _ => False) w₂) w₁ ↔
      (AnswersDeleted storage record.memoryId w₁.storage ↔ Deletes storage table record.memoryId w₁.storage) ∧
        (Deletes storage table record.memoryId w₁.storage →
          (lifecyclePolicy record.memoryType).permits explicitPolicyId automatic = true) := by
  have hremoved := hkeyed.delete record.memoryId w₁.storage
  rw [htable] at hremoved
  rw [Kernel.delete, if_neg record.memoryId.2, World.wp_touch]
  unfold AnswersDeleted Deletes after
  cases hdelete : (storage.delete record.memoryId).run w₁.storage with
  | error text s =>
    rw [wp_of_run_error hdelete] at hremoved ⊢
    rw [wp_auditForget_iff hoperation hagent]
    · simp
    · simp
    · exact haudit
    · exact hremoved
  | ok deleted s =>
    rw [wp_of_run_ok hdelete] at hremoved ⊢
    rw [wp_auditForget_iff hoperation hagent]
    · simp
    · cases deleted <;> simp
    · exact haudit
    · exact hremoved

/-- **Forgetting and the policy**: whatever record is asked for, a call follows the lifecycle policy just when its ids
are not empty and, if the record is found and the engine goes on to delete it, the storage tells the truth about the
deletion, and no semantic memory is deleted automatically. -/
theorem forget_follows_iff (hkeyed : Keyed storage table) (hstored : table w.storage record.memoryId = some record)
    (hretrieve : ¬ RetrieveRaises storage record.memoryId w) (operationId agentId : String) :
    wp (Forgetting.forget storage quiet record.memoryId operationId agentId explicitPolicyId automatic)
        (fun deleted w' => Follows table record explicitPolicyId automatic w deleted w') (fun _ _ => False) w ↔
      operationId ≠ "" ∧ agentId ≠ "" ∧ ∀ s, Reaches storage record explicitPolicyId automatic w s →
        (AnswersDeleted storage record.memoryId s ↔ Deletes storage table record.memoryId s) ∧
        (Deletes storage table record.memoryId s → ¬ (record.memoryType = .semantic ∧ automatic = true)) := by
  unfold Forgetting.forget Forgetting.validateRequired Kernel.retrieve
  rw [if_neg record.memoryId.2]
  by_cases hoperation : operationId = ""
  · rw [if_pos hoperation]
    exact iff_of_false id fun h => h.1 hoperation
  by_cases hagent : agentId = ""
  · rw [if_neg hoperation, if_pos hagent]
    exact iff_of_false id fun h => h.2.1 hagent
  rw [if_neg hoperation, if_neg hagent, wp_bind, wp_pure, if_neg record.memoryId.2, wp_bind, World.wp_touch]
  have hread := hkeyed.retrieve record.memoryId w.storage
  cases hrun : (storage.retrieve record.memoryId).run w.storage with
  | error text s => exact absurd ⟨text, s, hrun⟩ hretrieve
  | ok found s =>
    rw [wp_of_run_ok hrun] at hread ⊢
    obtain ⟨hsame, hfound⟩ := hread
    cases found with
    | none =>
      have hnot (s' : τ) : ¬ Reaches storage record explicitPolicyId automatic w s' := by
        rintro ⟨hrun', _⟩
        rw [hrun] at hrun'
        cases hrun'
      rw [wp_bind, Forgetting.auditForget, wp_emit_quiet hoperation hagent record.memoryId.2, wp_pure]
      exact iff_of_true (Follows.of_kept hstored hsame rfl rfl) ⟨hoperation, hagent, fun s' h => absurd h (hnot s')⟩
    | some other =>
      obtain rfl : record = other := Option.some.inj (hstored.symm.trans (hfound other rfl))
      cases hcheck : Forgetting.isForgettingAllowed record explicitPolicyId automatic with
      | mk allowed reason =>
      simp only [hcheck, wp_ite, wp_bind, wp_pure, wp_tryCatch]
      cases allowed with
      | false =>
        have hnot (s' : τ) : ¬ Reaches storage record explicitPolicyId automatic w s' := by
          rintro ⟨_, hallowed⟩
          rw [hcheck] at hallowed
          cases hallowed
        refine iff_of_true ⟨fun _ => ?_, fun h => absurd rfl h⟩
          ⟨hoperation, hagent, fun s' h => absurd h (hnot s')⟩
        rw [Forgetting.auditForget, wp_emit_quiet hoperation hagent record.memoryId.2]
        exact Follows.of_kept hstored hsame rfl rfl
      | true =>
        have hreaches (s' : τ) : Reaches storage record explicitPolicyId automatic w s' ↔ s = s' := by
          unfold Reaches
          rw [hrun, hcheck]
          simp
        have hpermits : (lifecyclePolicy record.memoryType).permits explicitPolicyId automatic = true ↔
            ¬ (record.memoryType = .semantic ∧ automatic = true) := by
          have hallowed := (isForgettingAllowed_iff record explicitPolicyId automatic).mp (congrArg Prod.fst hcheck)
          refine ⟨fun h hsemantic => ?_, fun h => ?_⟩
          · rw [hsemantic.1, hsemantic.2] at h
            simp [lifecyclePolicy, ForgettingRule.permits] at h
          · exact hallowed.resolve_right fun hsemantic => h ⟨hsemantic.1, hsemantic.2.1⟩
        have hdeletion := @wp_deletion_iff _ _ storage table record explicitPolicyId automatic w hkeyed operationId
          agentId hoperation hagent (deletionMetadata record)
          ⟨s, w.touches ++ [.retrieve record.memoryId], w.audit, w.reached⟩ rfl hsame
        simp only [hreaches, forall_eq', hpermits.symm]
        constructor
        · intro h
          exact ⟨hoperation, hagent, hdeletion.mp (h.2 (by decide))⟩
        · intro h
          exact ⟨fun hfalse => absurd hfalse (by decide), fun _ => hdeletion.mpr h.2.2⟩

end

/-! ### Knowledge, forgotten automatically -/

def knowledge : MemoryRecord Unit :=
  ⟨⟨"semantic:mem-1", by decide⟩, .semantic, "2026-01-01T00:00:00+00:00", (), [], .validated, ⟨"op-1", operation_ne⟩,
    ⟨"momentum", momentum_ne⟩⟩

/-- The rows of a table with this record. -/
def knowledgeRows : Dict String (Row Unit) := Dict.empty.set knowledge.memoryId (Row.payload knowledge)

/-- A table with this record. -/
def knowledgeable : World (Database Unit) := ⟨⟨knowledgeRows, 0⟩, [], [], []⟩

theorem table_knowledgeable : knowledgeable.storage.table knowledge.memoryId = some knowledge := by
  rw [Database.table, tableOf, Database.entries, knowledgeable, knowledgeRows, Dict.get?_set_self]
  exact Row.modelValidate_payload rfl

theorem forget_follows_iff_knowledge :
    wp (Forgetting.forget answeringStorage quiet knowledge.memoryId "op-2" "momentum" (some "p1") false)
        (fun deleted w' => Follows Database.table knowledge (some "p1") false knowledgeable deleted w')
        (fun _ _ => False) knowledgeable ↔
      "op-2" ≠ "" ∧ "momentum" ≠ "" ∧ ∀ s, Reaches answeringStorage knowledge (some "p1") false knowledgeable s →
        (AnswersDeleted (answeringStorage : Storage Unit (Database Unit)) knowledge.memoryId s ↔
          Deletes answeringStorage Database.table knowledge.memoryId s) ∧
        (Deletes answeringStorage Database.table knowledge.memoryId s →
          ¬ (knowledge.memoryType = .semantic ∧ false = true)) :=
  forget_follows_iff keyed_answeringStorage table_knowledgeable (not_retrieveRaises_database _ _) "op-2" "momentum"

/-- With a policy id, semantic memory is deleted automatically. -/
theorem knowledge_forgotten :
    ¬ wp (Forgetting.forget answeringStorage quiet knowledge.memoryId "op-2" "momentum" (some "p1") true)
        (fun deleted w' => Follows Database.table knowledge (some "p1") true knowledgeable deleted w')
        (fun _ _ => False) knowledgeable := by
  rw [forget_follows_iff keyed_answeringStorage table_knowledgeable (not_retrieveRaises_database _ _)]
  intro h
  have hreaches : Reaches answeringStorage knowledge (some "p1") true knowledgeable
      ⟨knowledgeRows, 1⟩ := ⟨rfl, rfl⟩
  exact (h.2.2 _ hreaches).2 rfl ⟨rfl, rfl⟩

end Atlas.ControlPlane
