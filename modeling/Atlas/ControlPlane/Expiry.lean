import Atlas.ControlPlane.Lifecycle
import Atlas.Lib.PyText

/-!
# Working memory that expires: `forgetting/engine.py`

* `Forgetting.forgetIfExpiredWorkingMemory` : the call; `Expired` : the records that it is for;
* `wp_forget_storage`, `wp_forgetIfExpired_storage` : what the two calls make of the storage;
* `interleaved` : a storage, with the writes of other callers between the calls of one caller;
* `expiry_iff` : the interleavings in which nothing but expired working memory is deleted.
-/

namespace Atlas.ControlPlane
open Raising
open Atlas.Memory (MemoryType)

/-! ## The call -/

/-- The fields, in microseconds, and the `utcoffset` of `tzinfo`, in microseconds too. -/
structure DateTime where
  micros : ℤ
  utcoffset : Option ℤ

namespace DateTime

/-- `if t.tzinfo is None: t = t.replace(tzinfo=timezone.utc)` -/
def orUtc (t : DateTime) : DateTime := { t with utcoffset := t.utcoffset.or (some 0) }

/-- What aware times are compared by. -/
def instant (t : DateTime) : ℤ := t.micros - t.utcoffset.getD 0

end DateTime

namespace Forgetting
variable {α τ : Type}

/-- `POLICY_ID` -/
def policyId : String := "memory-lifecycle-policy:v1"

section
variable (text? : α → Option String)

/-- `expires_at_raw`, if it is a text with something in it. -/
def expiresAtRaw (record : MemoryRecord α) : Option String :=
  ((record.metadata.lookup "expires_at").bind text?).filter fun raw => PyText.strip PyText.isSpace raw.toList ≠ []

/-- `expires_at_raw.replace("Z", "+00:00")` -/
def withOffset (raw : String) : String :=
  String.ofList (raw.toList.flatMap fun c => if c = 'Z' then "+00:00".toList else [c])

variable (fromisoformat : String → Option DateTime) (now : DateTime)

/-- A working record whose `expires_at` is not after the time read. -/
def Expired (record : MemoryRecord α) : Prop :=
  record.memoryType = .working ∧ ∃ raw expiresAt, expiresAtRaw text? record = some raw ∧
    fromisoformat (withOffset raw) = some expiresAt ∧ expiresAt.orUtc.instant ≤ now.instant

/-- `isinstance(value, str)` is `text?`; `fromisoformat` raises where it has no value. -/
def forgetIfExpiredWorkingMemory (storage : Storage α τ) (sink : Sink) (memoryId operationId agentId : String) :
    EStateM Raised (World τ) Bool := do
  validateRequired memoryId operationId agentId
  let record ← Kernel.retrieve storage memoryId
  match record with
  | none => return false
  | some record =>
    if record.memoryType ≠ .working then return false
    else
      match expiresAtRaw text? record with
      | none => return false
      | some raw =>
        match fromisoformat (withOffset raw) with
        | none =>
          auditForget sink memoryId operationId agentId (some policyId) true .failure
            [("reason", .text "invalid_expires_at"), ("expires_at", .text raw),
              ("memory_type", .text (typeValue record.memoryType))]
          return false
        | some expiresAt =>
          if expiresAt.orUtc.instant > now.instant then return false
          else forget storage sink memoryId operationId agentId (some policyId) true

end

/-! ## What the calls make of the storage -/

section
variable {storage : Storage α τ} {sink : Sink} {memoryId operationId agentId : String}
  {explicitPolicyId : Option String} {automatic : Bool} {P : τ → Prop} {w : World τ}

/-- The storage is asked for the record, and asked to delete it if this is allowed. -/
def Leaves (storage : Storage α τ) (memoryId : String) (explicitPolicyId : Option String) (automatic : Bool)
    (P : τ → Prop) : τ → Prop :=
  wp (storage.retrieve memoryId) (fun found s => (found = none → P s) ∧ ∀ record, found = some record →
    ((isForgettingAllowed record explicitPolicyId automatic).1 = false → P s) ∧
    ((isForgettingAllowed record explicitPolicyId automatic).1 = true →
      wp (storage.delete memoryId) (fun _ => P) (fun _ => P) s)) fun _ => P

/-- The sink has nothing to do with the storage. -/
theorem wp_auditForget_storage {β : Type} {result : AuditResult} {metadata : List (String × MetaValue)} (b : β) :
    wp (do
        auditForget sink memoryId operationId agentId explicitPolicyId automatic result metadata
        return b) (fun _ w' => P w'.storage) (fun _ w' => P w'.storage) w ↔ P w.storage := by
  have hkeeps : Keeps World.storage (do
      auditForget sink memoryId operationId agentId explicitPolicyId automatic result metadata
      return b : EStateM Raised (World τ) β) :=
    (keeps_emit (fun _ _ => rfl) sink _).bind fun _ => Keeps.pure b
  exact hkeeps.wp_iff

theorem wp_forget_storage (hmemory : memoryId ≠ "") (hoperation : operationId ≠ "") (hagent : agentId ≠ "") :
    wp (forget storage sink memoryId operationId agentId explicitPolicyId automatic) (fun _ w' => P w'.storage)
        (fun _ w' => P w'.storage) w ↔
      Leaves storage memoryId explicitPolicyId automatic P w.storage := by
  unfold forget validateRequired Kernel.retrieve Leaves
  rw [if_neg hmemory, if_neg hoperation, if_neg hagent, wp_bind, wp_pure, if_neg hmemory, wp_bind, World.wp_touch]
  refine wp_congr (fun found s => ?_) fun _ _ => Iff.rfl
  cases found with
  | none =>
    rw [wp_auditForget_storage]
    exact ⟨fun h => ⟨fun _ => h, nofun⟩, fun h => h.1 rfl⟩
  | some record =>
    simp only [reduceCtorEq, false_imp_iff, true_and, Option.some.injEq, forall_eq']
    cases hcheck : isForgettingAllowed record explicitPolicyId automatic with
    | mk allowed reason =>
    simp only [wp_ite, Bool.not_eq_false]
    refine and_congr (imp_congr_right fun _ => wp_auditForget_storage false) (imp_congr_right fun _ => ?_)
    rw [wp_bind, wp_tryCatch, wp_bind, Kernel.delete, if_neg hmemory, World.wp_touch]
    refine wp_congr (fun deleted s' => ?_) fun exc s' => ?_
    · exact wp_auditForget_storage deleted
    · exact wp_auditForget_storage false

theorem wp_forgetIfExpired_storage {text? : α → Option String} {fromisoformat : String → Option DateTime}
    {now : DateTime} (hmemory : memoryId ≠ "") (hoperation : operationId ≠ "") (hagent : agentId ≠ "") :
    wp (forgetIfExpiredWorkingMemory text? fromisoformat now storage sink memoryId operationId agentId)
        (fun _ w' => P w'.storage) (fun _ w' => P w'.storage) w ↔
      wp (storage.retrieve memoryId) (fun found s =>
        ((∀ record, found = some record → ¬ Expired text? fromisoformat now record) → P s) ∧
        ∀ record, found = some record → Expired text? fromisoformat now record →
          Leaves storage memoryId (some policyId) true P s) (fun _ => P) w.storage := by
  unfold forgetIfExpiredWorkingMemory validateRequired Kernel.retrieve
  rw [if_neg hmemory, if_neg hoperation, if_neg hagent, wp_bind, wp_pure, if_neg hmemory, wp_bind, World.wp_touch]
  refine wp_congr (fun found s => ?_) fun _ _ => Iff.rfl
  cases found with
  | none => exact ⟨fun h => ⟨fun _ => h, nofun⟩, fun h => h.1 nofun⟩
  | some record =>
    simp only [Option.some.injEq, forall_eq']
    have hstays (hnot : ¬ Expired text? fromisoformat now record) :
        P s ↔ (¬ Expired text? fromisoformat now record → P s) ∧
          (Expired text? fromisoformat now record → Leaves storage memoryId (some policyId) true P s) :=
      ⟨fun h => ⟨fun _ => h, fun h' => absurd h' hnot⟩, fun h => h.1 hnot⟩
    by_cases htype : record.memoryType = .working
    · rw [if_neg (not_not.mpr htype)]
      cases hraw : expiresAtRaw text? record with
      | none =>
        refine hstays fun ⟨_, raw, _, hsome, _⟩ => ?_
        rw [hraw] at hsome
        cases hsome
      | some raw =>
        dsimp only
        cases hparsed : fromisoformat (withOffset raw) with
        | none =>
          dsimp only
          refine (wp_auditForget_storage false).trans (hstays fun ⟨_, raw', _, hsome, hparsed', _⟩ => ?_)
          obtain rfl := Option.some.inj (hraw.symm.trans hsome)
          rw [hparsed] at hparsed'
          cases hparsed'
        | some expiresAt =>
          dsimp only
          by_cases hlate : expiresAt.orUtc.instant > now.instant
          · rw [if_pos hlate]
            refine hstays fun ⟨_, raw', expiresAt', hsome, hparsed', hpast⟩ => ?_
            obtain rfl := Option.some.inj (hraw.symm.trans hsome)
            obtain rfl := Option.some.inj (hparsed.symm.trans hparsed')
            exact absurd hpast (not_le.mpr hlate)
          · have hexpired : Expired text? fromisoformat now record :=
              ⟨htype, raw, expiresAt, hraw, hparsed, not_lt.mp hlate⟩
            rw [if_neg hlate, wp_forget_storage hmemory hoperation hagent]
            exact ⟨fun h => ⟨fun hnot => absurd hexpired hnot, fun _ => h⟩, fun h => h.2 hexpired⟩
    · rw [if_pos htype]
      exact hstays fun h => htype h.1

end

end Forgetting

/-! ## Other callers -/

/-- What another caller's call makes of the table. -/
inductive Write (α : Type)
  | put (record : MemoryRecord α)
  | take (memoryId : String)

namespace Write
variable {α : Type}

def memoryId : Write α → String
  | put record => record.memoryId
  | take memoryId => memoryId

def content : Write α → Option (MemoryRecord α)
  | put record => some record
  | take _ => none

/-- The last write under the id, after one more. -/
def later (memoryId : String) (last : Option (Write α)) (write : Write α) : Option (Write α) :=
  if write.memoryId = memoryId then some write else last

/-- The last of the writes under the id. -/
def last? (memoryId : String) (writes : List (Write α)) : Option (Write α) := writes.foldl (later memoryId) none

end Write

section
variable {α β τ : Type}

/-- A storage that several callers use: `schedule` are the writes of the others in front of each call of this one,
`deleted` the records that the calls of this one have taken out. -/
structure Shared (α τ : Type) where
  storage : τ
  schedule : List (List (Write α))
  deleted : List (MemoryRecord α)

section
variable (storage : Storage α τ) (table : τ → Table α) (perform : τ → Write α → τ)

/-- The others have written. -/
def Shared.meanwhile (s : Shared α τ) : Shared α τ :=
  { s with storage := (s.schedule.headD []).foldl perform s.storage, schedule := s.schedule.tail }

/-- One call, behind the writes of the others. -/
def atomic (gone : τ → τ → List (MemoryRecord α)) (call : EStateM String τ β) : EStateM String (Shared α τ) β :=
  fun s =>
    let s := s.meanwhile perform
    match call.run s.storage with
    | .ok b t => .ok b { s with storage := t, deleted := s.deleted ++ gone s.storage t }
    | .error text t => .error text { s with storage := t, deleted := s.deleted ++ gone s.storage t }

/-- The storage, as one of several callers sees it. -/
def interleaved : Storage α (Shared α τ) where
  store record := atomic perform (fun _ _ => []) (storage.store record)
  retrieve memoryId := atomic perform (fun _ _ => []) (storage.retrieve memoryId)
  delete memoryId := atomic perform
    (fun t t' => if table t' memoryId = none then (table t memoryId).toList else []) (storage.delete memoryId)

end

/-- What has been taken out was expired working memory. -/
def OnlyExpired (text? : α → Option String) (fromisoformat : String → Option DateTime) (now : DateTime)
    (s : Shared α τ) : Prop :=
  ∀ record ∈ s.deleted, Forgetting.Expired text? fromisoformat now record

/-- One caller begins; the others write according to the schedule. -/
def World.beside (schedule : List (List (Write α))) (w : World τ) : World (Shared α τ) :=
  ⟨⟨w.storage, schedule, []⟩, w.touches, w.audit, w.reached⟩

variable {storage : Storage α τ} {table : τ → Table α} {perform : τ → Write α → τ} {memoryId : String}

theorem wp_atomic {gone : τ → τ → List (MemoryRecord α)} {call : EStateM String τ β} {s : Shared α τ}
    {Q : β → Shared α τ → Prop} {E : String → Shared α τ → Prop} :
    wp (atomic perform gone call) Q E s ↔
      wp call
        (fun b t => Q b ⟨t, s.schedule.tail, s.deleted ++ gone ((s.schedule.headD []).foldl perform s.storage) t⟩)
        (fun text t => E text ⟨t, s.schedule.tail, s.deleted ++ gone ((s.schedule.headD []).foldl perform s.storage) t⟩)
        ((s.schedule.headD []).foldl perform s.storage) := by
  unfold wp atomic Shared.meanwhile
  dsimp only [EStateM.run]
  cases call ((s.schedule.headD []).foldl perform s.storage) <;> rfl

theorem wp_retrieve_interleaved {s : Shared α τ} {Q : Option (MemoryRecord α) → Shared α τ → Prop}
    {E : String → Shared α τ → Prop} :
    wp ((interleaved storage table perform).retrieve memoryId) Q E s ↔
      wp (storage.retrieve memoryId) (fun found t => Q found ⟨t, s.schedule.tail, s.deleted⟩)
        (fun text t => E text ⟨t, s.schedule.tail, s.deleted⟩) ((s.schedule.headD []).foldl perform s.storage) := by
  rw [interleaved, wp_atomic]
  simp only [List.append_nil]

/-- The entry of an id behind some writes. -/
theorem table_foldl (hperform : ∀ t write, table (perform t write) = Function.update (table t) write.memoryId
    write.content) {entry : Option (MemoryRecord α)} (writes : List (Write α)) {last : Option (Write α)} {t : τ}
    (h : table t memoryId = last.elim entry Write.content) :
    table (writes.foldl perform t) memoryId =
      (writes.foldl (Write.later memoryId) last).elim entry Write.content := by
  induction writes generalizing last t with
  | nil => exact h
  | cons write writes ih =>
    refine ih ?_
    rw [hperform, Function.update_apply, Write.later]
    by_cases hid : write.memoryId = memoryId
    · rw [if_pos hid.symm, if_pos hid]
      rfl
    · rw [if_neg (Ne.symm hid), if_neg hid]
      exact h

/-- With the policy id, the automatic way is closed to procedural memory only. -/
theorem isForgettingAllowed_policyId (record : MemoryRecord α) :
    (Forgetting.isForgettingAllowed record (some Forgetting.policyId) true).1 = true ↔
      record.memoryType ≠ .procedural := by
  unfold Forgetting.isForgettingAllowed
  cases record.memoryType <;> simp [Forgetting.lacksPolicy, Forgetting.policyId]

section
variable {text? : α → Option String} {fromisoformat : String → Option DateTime} {now : DateTime}

/-- What the deletion takes out. -/
theorem wp_delete_onlyExpired {t : τ} {writes : List (Write α)} :
    wp ((interleaved storage table perform).delete memoryId) (fun _ => OnlyExpired text? fromisoformat now)
        (fun _ => OnlyExpired text? fromisoformat now) ⟨t, [writes], []⟩ ↔
      (Deletes storage table memoryId (writes.foldl perform t) → ∀ record,
        table (writes.foldl perform t) memoryId = some record →
          Forgetting.Expired text? fromisoformat now record) := by
  have hgone (t' : τ) (schedule : List (List (Write α))) :
      OnlyExpired text? fromisoformat now ⟨t', schedule, [] ++ if table t' memoryId = none then
          (table (writes.foldl perform t) memoryId).toList else []⟩ ↔
        (table t' memoryId = none → ∀ record, table (writes.foldl perform t) memoryId = some record →
          Forgetting.Expired text? fromisoformat now record) := by
    unfold OnlyExpired
    by_cases hnone : table t' memoryId = none
    · simp [hnone]
    · simp [hnone]
  unfold interleaved Deletes after
  rw [wp_atomic]
  dsimp only [List.headD_cons]
  cases hrun : (storage.delete memoryId).run (writes.foldl perform t) with
  | ok deleted t' =>
    rw [wp_of_run_ok hrun]
    exact hgone t' _
  | error text t' =>
    rw [wp_of_run_error hrun]
    exact hgone t' _

theorem onlyExpired_nil (t : τ) (schedule : List (List (Write α))) :
    OnlyExpired text? fromisoformat now ⟨t, schedule, []⟩ := nofun

/-- The second look, and the deletion. -/
theorem leaves_onlyExpired_iff {t : τ} {second third : List (Write α)} :
    Forgetting.Leaves (interleaved storage table perform) memoryId (some Forgetting.policyId) true
        (OnlyExpired text? fromisoformat now) ⟨t, [second, third], []⟩ ↔
      ∀ again t', (storage.retrieve memoryId).run (second.foldl perform t) = .ok (some again) t' →
        again.memoryType ≠ .procedural → Deletes storage table memoryId (third.foldl perform t') →
        ∀ record, table (third.foldl perform t') memoryId = some record →
          Forgetting.Expired text? fromisoformat now record := by
  rw [Forgetting.Leaves, wp_retrieve_interleaved]
  dsimp only [List.headD_cons, List.tail_cons]
  cases hrun : (storage.retrieve memoryId).run (second.foldl perform t) with
  | error text t' =>
    rw [wp_of_run_error hrun]
    exact iff_of_true (onlyExpired_nil _ _) nofun
  | ok found t' =>
    rw [wp_of_run_ok hrun]
    cases found with
    | none => exact iff_of_true ⟨fun _ => onlyExpired_nil _ _, nofun⟩ nofun
    | some again =>
      have hdelete := @wp_delete_onlyExpired _ _ storage table perform memoryId text? fromisoformat now t' third
      simp only [EStateM.Result.ok.injEq, Option.some.injEq, and_imp, forall_eq']
      rw [isForgettingAllowed_policyId, Bool.eq_false_iff, ne_eq, isForgettingAllowed_policyId]
      constructor
      · rintro ⟨-, -, h⟩ again' t'' rfl rfl hprocedural
        exact hdelete.mp (h hprocedural)
      · intro h
        exact ⟨nofun, fun _ => onlyExpired_nil _ _, fun hprocedural => hdelete.mpr (h again t' rfl rfl hprocedural)⟩

/-- **Expiry among other callers**: what a call deletes is expired working memory just when this is so of the last
record that others have put under the id since the first of the two reads and not taken out, if there is one and the
call comes to a deletion that is carried out. -/
theorem expiry_iff (hkeyed : Keyed storage table) (hperform : ∀ t write, table (perform t write) =
    Function.update (table t) write.memoryId write.content) (sink : Sink) (operationId agentId : String)
    (first second third : List (Write α)) (w : World τ) :
    wp (Forgetting.forgetIfExpiredWorkingMemory text? fromisoformat now (interleaved storage table perform) sink
          memoryId operationId agentId)
        (fun _ w' => OnlyExpired text? fromisoformat now w'.storage)
        (fun _ w' => OnlyExpired text? fromisoformat now w'.storage) (w.beside [first, second, third]) ↔
      (memoryId ≠ "" → operationId ≠ "" → agentId ≠ "" → ∀ found again t t',
        (storage.retrieve memoryId).run (first.foldl perform w.storage) = .ok (some found) t →
        Forgetting.Expired text? fromisoformat now found →
        (storage.retrieve memoryId).run (second.foldl perform t) = .ok (some again) t' →
        again.memoryType ≠ .procedural → Deletes storage table memoryId (third.foldl perform t') →
        ∀ record, Write.last? memoryId (second ++ third) = some (.put record) →
          Forgetting.Expired text? fromisoformat now record) := by
  by_cases hids : memoryId ≠ "" ∧ operationId ≠ "" ∧ agentId ≠ ""
  swap
  · refine iff_of_true ?_ fun hmemory hoperation hagent => absurd ⟨hmemory, hoperation, hagent⟩ hids
    unfold Forgetting.forgetIfExpiredWorkingMemory Forgetting.validateRequired
    have hnothing : OnlyExpired text? fromisoformat now (w.beside [first, second, third]).storage := onlyExpired_nil _ _
    simp only [wp_bind, wp_ite, wp_throw, wp_pure]
    exact ⟨fun _ => hnothing, fun hmemory => ⟨fun _ => hnothing, fun hoperation => ⟨fun _ => hnothing, fun hagent =>
      absurd ⟨hmemory, hoperation, hagent⟩ hids⟩⟩⟩
  obtain ⟨hmemory, hoperation, hagent⟩ := hids
  rw [Forgetting.wp_forgetIfExpired_storage hmemory hoperation hagent]
  have hread (t : τ) (found : Option (MemoryRecord α)) (t' : τ)
      (hrun : (storage.retrieve memoryId).run t = .ok found t') :
      table t' = table t ∧ ∀ record, found = some record → table t memoryId = some record :=
    (wp_of_run_ok hrun).mp (hkeyed.retrieve memoryId t)
  -- what stands under the id at the deletion
  have hentry {found : MemoryRecord α} {t t' : τ} {again : Option (MemoryRecord α)}
      (hfound : table t memoryId = some found)
      (hrun : (storage.retrieve memoryId).run (second.foldl perform t) = .ok again t') :
      table (third.foldl perform t') memoryId =
        (Write.last? memoryId (second ++ third)).elim (some found) Write.content := by
    rw [Write.last?, List.foldl_append]
    refine table_foldl hperform third ?_
    rw [(hread _ _ _ hrun).1]
    exact table_foldl hperform second hfound
  rw [wp_retrieve_interleaved]
  simp only [hmemory, hoperation, hagent, ne_eq, not_false_eq_true, forall_const]
  show wp _ _ _ (first.foldl perform w.storage) ↔ _
  cases hrun : (storage.retrieve memoryId).run (first.foldl perform w.storage) with
  | error text t =>
    rw [wp_of_run_error hrun]
    refine iff_of_true (onlyExpired_nil _ _) fun found again t t' hok => ?_
    cases hok
  | ok found t =>
    rw [wp_of_run_ok hrun]
    cases found with
    | none =>
      refine iff_of_true ⟨fun _ => onlyExpired_nil _ _, fun record hsome => ?_⟩ fun found again t t' hok => ?_
      · cases hsome
      · cases hok
    | some found =>
      have hfound := (hread _ _ _ hrun).1 ▸ (hread _ _ _ hrun).2 found rfl
      constructor
      · intro h found' again t₁ t₂ hok hexpired hagain hprocedural hdeletes record hlast
        cases hok
        refine leaves_onlyExpired_iff.mp (h.2 found rfl hexpired) again t₂ hagain hprocedural hdeletes record ?_
        rw [hentry hfound hagain, hlast]
        rfl
      · intro h
        refine ⟨fun _ => onlyExpired_nil _ _, fun record hsome hexpired => leaves_onlyExpired_iff.mpr ?_⟩
        obtain rfl := Option.some.inj hsome
        intro again t₂ hagain hprocedural hdeletes record hrecord
        rw [hentry hfound hagain] at hrecord
        cases hlast : Write.last? memoryId (second ++ third) with
        | none =>
          rw [hlast] at hrecord
          exact Option.some.inj hrecord ▸ hexpired
        | some write =>
          rw [hlast] at hrecord
          cases write with
          | take _ => cases hrecord
          | put other =>
            obtain rfl := Option.some.inj hrecord
            exact h found again t t₂ rfl hexpired hagain hprocedural hdeletes other hlast

end
end

/-! ### A record that is replaced in time -/

/-- In the database. -/
def Database.perform {α : Type} (db : Database α) : Write α → Database α
  | .put record => { db with rows := db.rows.set record.memoryId (Row.payload record) }
  | .take memoryId => { db with rows := db.rows.erase memoryId }

theorem table_perform {α : Type} (db : Database α) (write : Write α) :
    (db.perform write).table = Function.update db.table write.memoryId write.content := by
  cases write with
  | put record =>
    refine (congrArg (tableOf some) (Database.entries_set db.rows (Row.payload record) db.requests)).trans ?_
    rw [tableOf_update]
    exact congrArg _ (Row.modelValidate_payload rfl)
  | take memoryId =>
    rw [Database.perform, Database.table, Database.entries_erase, tableOf_update]
    rfl

/-- 2026-01-01. -/
def newYear : DateTime := ⟨63902822400000000, some 0⟩

/-- The texts that are read below. -/
def isoformat (text : String) : Option DateTime := if text = "2026-01-01T00:00:00+00:00" then some newYear else none

/-- A note that expires with the year. -/
def note : MemoryRecord String :=
  ⟨⟨"mem-1", memory_ne⟩, .working, "2025-12-31T00:00:00+00:00", "", [("expires_at", "2026-01-01T00:00:00Z")],
    .validated, ⟨"op-1", operation_ne⟩, ⟨"momentum", momentum_ne⟩⟩

/-- What another agent has learned, under the same id. -/
def learned : MemoryRecord String := { note with memoryType := .semantic, metadata := [] }

def notebook : World (Database String) := ⟨⟨Dict.empty.set note.memoryId (Row.payload note), 0⟩, [], [], []⟩

theorem expiry_iff_notebook :
    wp (Forgetting.forgetIfExpiredWorkingMemory some isoformat newYear
          (interleaved answeringStorage Database.table Database.perform) quiet "mem-1" "op-2"
          "momentum")
        (fun _ w' => OnlyExpired some isoformat newYear w'.storage)
        (fun _ w' => OnlyExpired some isoformat newYear w'.storage) (notebook.beside [[], [], []]) ↔
      ("mem-1" ≠ "" → "op-2" ≠ "" → "momentum" ≠ "" → ∀ found again t t',
        (answeringStorage.retrieve "mem-1").run notebook.storage = .ok (some found) t →
        Forgetting.Expired some isoformat newYear found →
        (answeringStorage.retrieve "mem-1").run t = .ok (some again) t' →
        again.memoryType ≠ .procedural → Deletes answeringStorage Database.table "mem-1" t' →
        ∀ record : MemoryRecord String, Write.last? "mem-1" [] = some (.put record) →
          Forgetting.Expired some isoformat newYear record) :=
  expiry_iff keyed_answeringStorage table_perform quiet "op-2" "momentum" [] [] [] notebook

/-- Stored between the two reads, it is deleted. -/
theorem learned_deleted :
    ¬ wp (Forgetting.forgetIfExpiredWorkingMemory some isoformat newYear
          (interleaved answeringStorage Database.table Database.perform) quiet "mem-1" "op-2"
          "momentum")
        (fun _ w' => OnlyExpired some isoformat newYear w'.storage)
        (fun _ w' => OnlyExpired some isoformat newYear w'.storage) (notebook.beside [[], [.put learned], []]) := by
  intro h
  have hdeleted : (after (Forgetting.forgetIfExpiredWorkingMemory some isoformat newYear
          (interleaved answeringStorage Database.table Database.perform) quiet "mem-1" "op-2"
          "momentum") (notebook.beside [[], [.put learned], []])).storage.deleted = [learned] := rfl
  have honly := after_of_wp h
  exact nomatch (honly learned (hdeleted ▸ List.mem_singleton_self learned)).1

end Atlas.ControlPlane
