import MemoryCloud.Secrets.Audit

set_option autoImplicit false

/-!
# What the verifier notices

A reached log verifies and lists only rows that an erasure rewrote. Which later edits
are noticed depends on the row: a pseudonym in an identity column excuses every
mismatch of the row's hash.
-/

namespace MemoryCloud.Secrets

open MemoryCloud.Changes

section Payloads

theorem Uuid.text_inj {left right : Uuid} (same : Uuid.text left = Uuid.text right) :
    left = right := by
  have parsed := parse_text left
  rw [same, parse_text] at parsed
  exact (Option.some.inj parsed).symm

theorem idText_ne_empty (id : Uuid) : idText (some id) ≠ "" := by
  intro empty
  have parsed := parse_text id
  have blank : Uuid.text id = [] := by
    have characters := congrArg String.toList empty
    simpa [idText] using characters
  simp [blank, Uuid.parse] at parsed

theorem idText_inj {left right : Option Uuid} (same : idText left = idText right) :
    left = right := by
  cases left with
  | none =>
    cases right with
    | none => rfl
    | some id => exact absurd same.symm (idText_ne_empty id)
  | some id =>
    cases right with
    | none => exact absurd same (idText_ne_empty id)
    | some other => rw [Uuid.text_inj (String.ofList_inj.mp same)]

theorem isoformat_inj {left right : DateTime} (same : left.isoformat = right.isoformat) :
    left = right := by
  have read := fromisoformat_isoformat left
  rw [same, fromisoformat_isoformat] at read
  exact (Option.some.inj read).symm

theorem AuditAction.text_inj {left right : AuditAction} (same : left.text = right.text) :
    left = right := by
  cases left <;> cases right <;> first | rfl | exact absurd same (by decide)

theorem AuditResult.text_inj {left right : AuditResult} (same : left.text = right.text) :
    left = right := by
  cases left <;> cases right <;> first | rfl | exact absurd same (by decide)

theorem auditPayload_inj {leftPrev rightPrev : String} {left right : AuditEntry}
    (same : auditPayload leftPrev left = auditPayload rightPrev right) :
    left.secretId = right.secretId ∧ left.versionId = right.versionId ∧
      left.action = right.action ∧ left.result = right.result ∧
      left.createdAt = right.createdAt ∧ metaOrEmpty left.reqMeta = metaOrEmpty right.reqMeta := by
  have fields := Json.array.inj (Json.dumps_inj same)
  simp only [auditFields, List.cons.injEq, Json.string.injEq, and_true] at fields
  obtain ⟨_, _, secret, version, _, _, action, result, created, details⟩ := fields
  exact ⟨idText_inj secret, idText_inj version, AuditAction.text_inj action,
    AuditResult.text_inj result, isoformat_inj (String.ofList_inj.mp created), details⟩

end Payloads

section Walks

variable (hmac : List Char → String)

def Chained : String → List SecretAccessLog → Prop
  | _, [] => True
  | expected, row :: rest => row.prevHash = expected ∧ Chained row.entryHash rest

def Passes (row : SecretAccessLog) : Prop :=
  hashMatches hmac row = true ∨ entryMutationIsErasureShaped row.toAuditEntry = true

def headOf (expected : String) (rows : List SecretAccessLog) : String :=
  (rows.getLast?.map SecretAccessLog.entryHash).getD expected

def mismatched (rows : List SecretAccessLog) : List Nat :=
  (rows.filter fun row => !hashMatches hmac row).map SecretAccessLog.id

theorem headOf_cons (expected : String) (row : SecretAccessLog) (rest : List SecretAccessLog) :
    headOf expected (row :: rest) = headOf row.entryHash rest := by
  cases rest with
  | nil => rfl
  | cons next others => simp [headOf, List.getLast?_cons]

theorem walk_valid {total : Nat} {expected : String} {listed : List Nat}
    {rows : List SecretAccessLog} (chained : Chained expected rows)
    (passing : ∀ row ∈ rows, Passes hmac row) :
    walk hmac total expected listed rows =
      .valid total (headOf expected rows) (listed ++ mismatched hmac rows) := by
  induction rows generalizing expected listed with
  | nil => simp [walk, headOf, mismatched]
  | cons row rest ih =>
    have later := fun listed => @ih row.entryHash listed chained.2
      (fun other mem => passing other (by simp [mem]))
    simp only [walk, chained.1, ne_eq, not_true_eq_false, if_false, headOf_cons]
    cases passing row (by simp) with
    | inl matching => simp [matching, later, mismatched]
    | inr shaped =>
      cases known : hashMatches hmac row with
      | true => simp [later, mismatched, known]
      | false => simp [shaped, later, mismatched, known]

theorem walk_isValid {total : Nat} {expected : String} {listed : List Nat}
    {rows : List SecretAccessLog} (valid : (walk hmac total expected listed rows).isValid = true) :
    Chained expected rows ∧ ∀ row ∈ rows, Passes hmac row := by
  induction rows generalizing expected listed with
  | nil => exact ⟨trivial, fun _ listed => nomatch listed⟩
  | cons row rest ih =>
    simp only [walk] at valid
    split at valid
    next => cases valid
    next linked =>
      split at valid
      next matching =>
        obtain ⟨chained, passing⟩ := ih valid
        exact ⟨⟨not_not.mp linked, chained⟩, List.forall_mem_cons.mpr ⟨.inl matching, passing⟩⟩
      next =>
        split at valid
        next shaped =>
          obtain ⟨chained, passing⟩ := ih valid
          exact ⟨⟨not_not.mp linked, chained⟩, List.forall_mem_cons.mpr ⟨.inr shaped, passing⟩⟩
        next => cases valid

theorem verifyAuditChain_isValid (log : Log) (workspaceId : Uuid) :
    (verifyAuditChain hmac log workspaceId).isValid = true ↔
      Chained auditGenesisHash (log.ofWorkspace workspaceId) ∧
        ∀ row ∈ log.ofWorkspace workspaceId, Passes hmac row := by
  constructor
  next => exact walk_isValid hmac
  next =>
    rintro ⟨chained, passing⟩
    simp only [verifyAuditChain, walk_valid hmac chained passing]
    rfl

variable {hmac}

theorem chained_append {expected : String} {before after : List SecretAccessLog} :
    Chained expected (before ++ after) ↔
      Chained expected before ∧ Chained (headOf expected before) after := by
  induction before generalizing expected with
  | nil => simp [Chained, headOf]
  | cons row rest ih => simp only [List.cons_append, Chained, ih, headOf_cons, and_assoc]

theorem chained_map {expected : String} {rows : List SecretAccessLog}
    {rewrite : SecretAccessLog → SecretAccessLog}
    (links : ∀ row, (rewrite row).prevHash = row.prevHash ∧ (rewrite row).entryHash = row.entryHash) :
    Chained expected (rows.map rewrite) ↔ Chained expected rows := by
  induction rows generalizing expected with
  | nil => rfl
  | cons row rest ih => simp only [List.map_cons, Chained, links, ih]

end Walks

section Reached

variable {hmac : List Char → String} {pseudonym : String → String}

structure Sound (hmac : List Char → String) (log : Log) : Prop where
  fresh : ∀ row ∈ log.rows, row.id < log.nextId
  distinct : (log.rows.map SecretAccessLog.id).Nodup
  chained : ∀ workspaceId, Chained auditGenesisHash (log.ofWorkspace workspaceId)
  linear : ∀ workspaceId, ((log.ofWorkspace workspaceId).map SecretAccessLog.prevHash).Nodup
  written : ∀ row ∈ log.rows, row.entryHash ≠ ""
  told : ∀ row ∈ log.rows, hashMatches hmac row = true ∨
    row.id ∈ log.erased ∧ entryMutationIsErasureShaped row.toAuditEntry = true

theorem mem_ofWorkspace {log : Log} {workspaceId : Uuid} {row : SecretAccessLog} :
    row ∈ log.ofWorkspace workspaceId ↔ row ∈ log.rows ∧ row.workspaceId = workspaceId := by
  simp [Log.ofWorkspace]

theorem Sound.passes {log : Log} (sound : Sound hmac log) {row : SecretAccessLog}
    (stored : row ∈ log.rows) : Passes hmac row := by
  cases sound.told row stored with
  | inl matching => exact .inl matching
  | inr erased => exact .inr erased.2

theorem sound_empty : Sound hmac {} where
  fresh _ stored := nomatch stored
  distinct := List.nodup_nil
  chained _ := trivial
  linear _ := List.nodup_nil
  written _ stored := nomatch stored
  told _ stored := nomatch stored

theorem Sound.skipped {log : Log} (sound : Sound hmac log) :
    Sound hmac { log with nextId := log.nextId + 1 } :=
  { sound with fresh := fun row stored => Nat.lt_succ_of_lt (sound.fresh row stored) }

theorem Sound.prevHashOf_eq {log : Log} (sound : Sound hmac log) (workspaceId : Uuid) :
    prevHashOf (log.ofWorkspace workspaceId) =
      headOf auditGenesisHash (log.ofWorkspace workspaceId) := by
  unfold prevHashOf headOf
  cases tip : (log.ofWorkspace workspaceId).getLast? with
  | none => rfl
  | some row =>
    have stored := (mem_ofWorkspace.mp (List.mem_of_getLast? tip)).1
    simp [sound.written row stored]

theorem ofWorkspace_append (log : Log) (row : SecretAccessLog) (nextId : Nat) (workspaceId : Uuid) :
    Log.ofWorkspace { log with rows := log.rows ++ [row], nextId := nextId } workspaceId =
      log.ofWorkspace workspaceId ++ if row.workspaceId = workspaceId then [row] else [] := by
  by_cases same : row.workspaceId = workspaceId <;> simp [Log.ofWorkspace, same]

theorem Sound.append (nonempty : ∀ payload, hmac payload ≠ "") {log : Log}
    (sound : Sound hmac log) (entry : AuditEntry) : Sound hmac (appendAudit hmac log entry) := by
  simp only [appendAudit]
  split
  next => exact sound.skipped
  next free =>
    have linked := sound.prevHashOf_eq entry.workspaceId
    constructor
    case fresh =>
      intro row stored
      cases List.mem_append.mp stored with
      | inl earlier => exact Nat.lt_succ_of_lt (sound.fresh row earlier)
      | inr here =>
        rw [List.mem_singleton.mp here]
        exact Nat.lt_succ_self _
    case distinct =>
      rw [List.map_append, List.nodup_append]
      refine ⟨sound.distinct, by simp, ?_⟩
      intro id listed other here
      obtain ⟨row, stored, rfl⟩ := List.mem_map.mp listed
      rw [List.mem_singleton.mp here]
      exact Nat.ne_of_lt (sound.fresh row stored)
    case chained =>
      intro workspaceId
      rw [ofWorkspace_append]
      split
      next same =>
        subst same
        exact chained_append.mpr ⟨sound.chained _, linked, trivial⟩
      next => simpa using sound.chained workspaceId
    case linear =>
      intro workspaceId
      rw [ofWorkspace_append]
      split
      next same =>
        subst same
        rw [List.map_append, List.nodup_append]
        refine ⟨sound.linear _, by simp, ?_⟩
        intro prev listed other here
        rw [List.mem_singleton.mp here]
        rintro rfl
        exact free listed
      next => simpa using sound.linear workspaceId
    case written =>
      intro row stored
      cases List.mem_append.mp stored with
      | inl earlier => exact sound.written row earlier
      | inr here =>
        rw [List.mem_singleton.mp here]
        exact nonempty _
    case told =>
      intro row stored
      cases List.mem_append.mp stored with
      | inl earlier => exact sound.told row earlier
      | inr here =>
        rw [List.mem_singleton.mp here]
        exact .inl (decide_eq_true rfl)

structure Rewrites (matched : SecretAccessLog → Bool) (rewrite : SecretAccessLog → SecretAccessLog) :
    Prop where
  id : ∀ row, (rewrite row).id = row.id
  workspaceId : ∀ row, (rewrite row).workspaceId = row.workspaceId
  links : ∀ row, (rewrite row).prevHash = row.prevHash ∧ (rewrite row).entryHash = row.entryHash
  other : ∀ row, matched row = false → rewrite row = row
  shaped : ∀ row, matched row = true →
    entryMutationIsErasureShaped (rewrite row).toAuditEntry = true

theorem eraseActor_rewrites (hex : ∀ userId, pseudonymRe (pseudonym userId) = true)
    (userId : String) : Rewrites (fun row => decide (row.actorUserId = userId))
      (eraseActor pseudonym userId) := by
  constructor <;> intro row <;> simp only [eraseActor] <;> split
  all_goals simp_all [entryMutationIsErasureShaped]

theorem eraseRecipient_rewrites (hex : ∀ userId, pseudonymRe (pseudonym userId) = true)
    (userId : String) : Rewrites (fun row => decide (row.recipientIdentity = some userId))
      (eraseRecipient pseudonym userId) := by
  constructor <;> intro row <;> simp only [eraseRecipient] <;> split
  all_goals simp_all [entryMutationIsErasureShaped]

theorem ofWorkspace_rewritten {matched : SecretAccessLog → Bool}
    {rewrite : SecretAccessLog → SecretAccessLog} (rewrites : Rewrites matched rewrite) (log : Log)
    (workspaceId : Uuid) :
    (log.rewritten matched rewrite).ofWorkspace workspaceId =
      (log.ofWorkspace workspaceId).map rewrite := by
  simp [Log.ofWorkspace, Log.rewritten, List.filter_map, Function.comp_def, rewrites.workspaceId]

theorem Sound.rewritten {matched : SecretAccessLog → Bool}
    {rewrite : SecretAccessLog → SecretAccessLog} (rewrites : Rewrites matched rewrite) {log : Log}
    (sound : Sound hmac log) : Sound hmac (log.rewritten matched rewrite) := by
  constructor
  case fresh =>
    intro row stored
    obtain ⟨before, listed, rfl⟩ := List.mem_map.mp stored
    rw [rewrites.id]
    exact sound.fresh before listed
  case distinct =>
    simpa [Log.rewritten, Function.comp_def, rewrites.id] using sound.distinct
  case chained =>
    intro workspaceId
    rw [ofWorkspace_rewritten rewrites, chained_map rewrites.links]
    exact sound.chained workspaceId
  case linear =>
    intro workspaceId
    rw [ofWorkspace_rewritten rewrites, List.map_map]
    simpa [Function.comp_def, rewrites.links] using sound.linear workspaceId
  case written =>
    intro row stored
    obtain ⟨before, listed, rfl⟩ := List.mem_map.mp stored
    rw [(rewrites.links before).2]
    exact sound.written before listed
  case told =>
    intro row stored
    obtain ⟨before, listed, rfl⟩ := List.mem_map.mp stored
    cases found : matched before with
    | true =>
      refine .inr ⟨?_, rewrites.shaped before found⟩
      rw [rewrites.id]
      exact List.mem_append_right _ (List.mem_map_of_mem (List.mem_filter.mpr ⟨listed, found⟩))
    | false =>
      rw [rewrites.other before found]
      cases sound.told before listed with
      | inl matching => exact .inl matching
      | inr erased => exact .inr ⟨List.mem_append_left _ erased.1, erased.2⟩

theorem Reached.sound (nonempty : ∀ payload, hmac payload ≠ "")
    (hex : ∀ userId, pseudonymRe (pseudonym userId) = true) {log : Log}
    (reached : Reached hmac pseudonym log) : Sound hmac log := by
  refine Runs.Reaches.invariant (Sound hmac) sound_empty ?_ reached
  intro before action after sound _ taken
  cases action with
  | append entry =>
    cases taken
    exact sound.append nonempty entry
  | rolledBack =>
    cases taken
    exact sound.skipped
  | eraseActor userId =>
    cases taken
    exact sound.rewritten (eraseActor_rewrites hex userId)
  | eraseRecipient userId =>
    cases taken
    exact sound.rewritten (eraseRecipient_rewrites hex userId)

theorem Sound.verifies {log : Log} (sound : Sound hmac log) (workspaceId : Uuid) :
    ∃ entries head listed, verifyAuditChain hmac log workspaceId = .valid entries head listed ∧
      ∀ id ∈ listed, id ∈ log.erased := by
  have passing : ∀ row ∈ log.ofWorkspace workspaceId, Passes hmac row :=
    fun row stored => sound.passes (mem_ofWorkspace.mp stored).1
  refine ⟨_, _, _, walk_valid hmac (sound.chained workspaceId) passing, ?_⟩
  intro id listed
  simp only [List.nil_append, mismatched, List.mem_map, List.mem_filter] at listed
  obtain ⟨row, ⟨stored, differs⟩, rfl⟩ := listed
  cases sound.told row (mem_ofWorkspace.mp stored).1 with
  | inl matching => simp [matching] at differs
  | inr erased => exact erased.1

end Reached

section Tampered

variable {hmac : List Char → String} {pseudonym : String → String}

-- Which change of a stored row the verifier reports.
def Noticeable (log : Log) (row : SecretAccessLog) : Edit → Prop
  | .prevHash _ => True
  | .workspaceId _ => ¬ log.isLast row
  | .entryHash _ =>
    ¬ log.isLast row ∨ entryMutationIsErasureShaped row.toAuditEntry = false
  | .reqMeta value => entryMutationIsErasureShaped row.toAuditEntry = false ∧
    metaOrEmpty value ≠ metaOrEmpty row.reqMeta
  | .secretId _ | .versionId _ | .action _ | .result _ | .createdAt _ =>
    entryMutationIsErasureShaped row.toAuditEntry = false

structure Around (log : Log) (row : SecretAccessLog) (before after : List SecretAccessLog) :
    Prop where
  whole : log.ofWorkspace row.workspaceId = before ++ row :: after
  edited : ∀ edit : Edit, (log.edited row.id edit).ofWorkspace row.workspaceId = before ++
    ((if (edit.apply row).workspaceId = row.workspaceId then [edit.apply row] else []) ++ after)
  removed : (log.removed row.id).ofWorkspace row.workspaceId = before ++ after
  last : log.isLast row ↔ after = []

theorem Sound.around {log : Log} (sound : Sound hmac log) {row : SecretAccessLog}
    (stored : row ∈ log.rows) : ∃ before after, Around log row before after := by
  obtain ⟨earlier, later, split⟩ := List.append_of_mem stored
  have distinct := sound.distinct
  rw [split, List.map_append, List.map_cons, List.nodup_append, List.nodup_cons] at distinct
  obtain ⟨_, ⟨notLater, _⟩, apart⟩ := distinct
  have otherEarlier : ∀ other ∈ earlier, other.id ≠ row.id := fun other listed =>
    apart other.id (List.mem_map_of_mem listed) row.id (by simp)
  have otherLater : ∀ other ∈ later, other.id ≠ row.id := fun other listed same =>
    notLater (same ▸ List.mem_map_of_mem listed)
  let inWorkspace : SecretAccessLog → Bool :=
    fun other => decide (other.workspaceId = row.workspaceId)
  have whole : log.ofWorkspace row.workspaceId =
      earlier.filter inWorkspace ++ row :: later.filter inWorkspace := by
    simp [Log.ofWorkspace, split, inWorkspace]
  refine ⟨earlier.filter inWorkspace, later.filter inWorkspace, whole, ?_, ?_, ?_⟩
  next =>
    intro edit
    have unchanged : ∀ rows : List SecretAccessLog, (∀ other ∈ rows, other.id ≠ row.id) →
        rows.map (fun other => if other.id = row.id then edit.apply other else other) = rows := by
      intro rows differ
      rw [List.map_congr_left fun other listed => if_neg (differ other listed)]
      exact List.map_id' rows
    simp only [Log.ofWorkspace, Log.edited, split, List.map_append, List.map_cons,
      unchanged earlier otherEarlier, unchanged later otherLater, if_true, List.filter_append]
    by_cases same : (edit.apply row).workspaceId = row.workspaceId <;> simp [same, inWorkspace]
  next =>
    have kept : ∀ rows : List SecretAccessLog, (∀ other ∈ rows, other.id ≠ row.id) →
        rows.filter (fun other => decide (other.id ≠ row.id)) = rows := fun rows differ =>
      List.filter_eq_self.mpr fun other listed => decide_eq_true (differ other listed)
    simp only [Log.ofWorkspace, Log.removed, split, List.filter_append]
    rw [kept earlier otherEarlier, List.filter_cons_of_neg (by simp), kept later otherLater]
  next =>
    unfold Log.isLast
    rw [whole]
    cases tail : later.filter inWorkspace with
    | nil => simp
    | cons next rest =>
      simp only [List.getLast?_append_cons, List.getLast?_cons_cons, reduceCtorEq, iff_false]
      intro last
      have listed : row ∈ later.filter inWorkspace := tail ▸ List.mem_of_getLast? last
      exact otherLater row (List.mem_filter.mp listed).1 rfl

variable {log : Log} {row : SecretAccessLog} {before after : List SecretAccessLog}

theorem Around.chain (around : Around log row before after) (sound : Sound hmac log) :
    Chained auditGenesisHash before ∧ row.prevHash = headOf auditGenesisHash before ∧
      Chained row.entryHash after := by
  have chained := sound.chained row.workspaceId
  rw [around.whole, chained_append] at chained
  exact chained

theorem Around.others (around : Around log row before after) (sound : Sound hmac log)
    {other : SecretAccessLog} (listed : other ∈ before ∨ other ∈ after) : Passes hmac other := by
  have stored : other ∈ log.ofWorkspace row.workspaceId := by
    rw [around.whole, List.mem_append, List.mem_cons]
    exact listed.imp_right .inr
  exact sound.passes (mem_ofWorkspace.mp stored).1

-- No two rows of a workspace have one predecessor, so a gap shows at the next row.
theorem Around.gap (around : Around log row before after) (sound : Sound hmac log) :
    Chained auditGenesisHash (before ++ after) ↔ after = [] := by
  obtain ⟨chained, linked, later⟩ := around.chain sound
  rw [chained_append]
  cases after with
  | nil => simp [chained, Chained]
  | cons next rest =>
    simp only [Chained, reduceCtorEq, iff_false, not_and]
    intro _ same _
    have linear := sound.linear row.workspaceId
    rw [around.whole, List.map_append, List.nodup_append] at linear
    refine (List.nodup_cons.mp linear.2.1).1 ?_
    rw [linked, ← same]
    simp

theorem Around.removed_isValid (around : Around log row before after) (sound : Sound hmac log) :
    (verifyAuditChain hmac (log.removed row.id) row.workspaceId).isValid = true ↔
      log.isLast row := by
  rw [verifyAuditChain_isValid, around.removed, around.gap sound, around.last]
  exact and_iff_left fun other listed => around.others sound (List.mem_append.mp listed)

theorem Around.moved_isValid (around : Around log row before after) (sound : Sound hmac log)
    {edit : Edit} (moved : (edit.apply row).workspaceId ≠ row.workspaceId) :
    (verifyAuditChain hmac (log.edited row.id edit) row.workspaceId).isValid = true ↔
      log.isLast row := by
  rw [verifyAuditChain_isValid, around.edited, if_neg moved, List.nil_append, around.gap sound,
    around.last]
  exact and_iff_left fun other listed => around.others sound (List.mem_append.mp listed)

theorem Around.edited_isValid (around : Around log row before after) (sound : Sound hmac log)
    {edit : Edit} (stays : (edit.apply row).workspaceId = row.workspaceId) :
    (verifyAuditChain hmac (log.edited row.id edit) row.workspaceId).isValid = true ↔
      (edit.apply row).prevHash = row.prevHash ∧ Chained (edit.apply row).entryHash after ∧
        Passes hmac (edit.apply row) := by
  obtain ⟨chained, linked, _⟩ := around.chain sound
  rw [verifyAuditChain_isValid, around.edited, if_pos stays, List.singleton_append, chained_append,
    linked]
  simp only [Chained, List.forall_mem_append, List.forall_mem_cons]
  constructor
  next =>
    rintro ⟨⟨_, same, later⟩, _, passing, _⟩
    exact ⟨same, later, passing⟩
  next =>
    rintro ⟨same, later, passing⟩
    exact ⟨⟨chained, same, later⟩, fun other listed => around.others sound (.inl listed), passing,
      fun other listed => around.others sound (.inr listed)⟩

theorem Sound.matches_of_unshaped (sound : Sound hmac log) (stored : row ∈ log.rows)
    (unshaped : entryMutationIsErasureShaped row.toAuditEntry = false) :
    hmac (auditPayload row.prevHash row.toAuditEntry) = row.entryHash := by
  cases sound.told row stored with
  | inl matching => exact of_decide_eq_true matching
  | inr erased => simp [unshaped] at erased

structure OfPayload (row : SecretAccessLog) (edit : Edit) : Prop where
  workspaceId : (edit.apply row).workspaceId = row.workspaceId
  prevHash : (edit.apply row).prevHash = row.prevHash
  entryHash : (edit.apply row).entryHash = row.entryHash
  shape : entryMutationIsErasureShaped (edit.apply row).toAuditEntry =
    entryMutationIsErasureShaped row.toAuditEntry

theorem Around.payload_invalid (around : Around log row before after) (sound : Sound hmac log)
    (injective : Function.Injective hmac) (stored : row ∈ log.rows) {edit : Edit}
    (payload : OfPayload row edit) :
    (verifyAuditChain hmac (log.edited row.id edit) row.workspaceId).isValid = false ↔
      entryMutationIsErasureShaped row.toAuditEntry = false ∧
        auditPayload row.prevHash (edit.apply row).toAuditEntry ≠
          auditPayload row.prevHash row.toAuditEntry := by
  rw [← Bool.not_eq_true, around.edited_isValid sound payload.workspaceId, payload.prevHash,
    payload.entryHash]
  simp only [true_and, (around.chain sound).2.2, Passes, payload.shape, not_or, Bool.not_eq_true]
  rw [and_comm]
  refine and_congr_right fun unshaped => ?_
  rw [hashMatches, decide_eq_false_iff_not, payload.prevHash, payload.entryHash,
    ← sound.matches_of_unshaped stored unshaped, injective.eq_iff]

theorem Around.noticed (around : Around log row before after) (sound : Sound hmac log)
    (injective : Function.Injective hmac) (stored : row ∈ log.rows) {edit : Edit}
    (changed : edit.apply row ≠ row) :
    (verifyAuditChain hmac (log.edited row.id edit) row.workspaceId).isValid = false ↔
      Noticeable log row edit := by
  have ofColumn : ∀ {changed : Edit}, OfPayload row changed →
      auditPayload row.prevHash (changed.apply row).toAuditEntry ≠
        auditPayload row.prevHash row.toAuditEntry →
      ((verifyAuditChain hmac (log.edited row.id changed) row.workspaceId).isValid = false ↔
        entryMutationIsErasureShaped row.toAuditEntry = false) := by
    intro changed payload differs
    rw [around.payload_invalid sound injective stored payload]
    exact and_iff_left differs
  cases edit with
  | workspaceId value =>
    have moved : (Edit.apply row (.workspaceId value)).workspaceId ≠ row.workspaceId := by
      rintro rfl
      exact changed rfl
    rw [← Bool.not_eq_true, around.moved_isValid sound moved]
    rfl
  | prevHash value =>
    rw [← Bool.not_eq_true, around.edited_isValid sound rfl]
    refine iff_of_true (fun valid => ?_) trivial
    cases valid.1
    exact changed rfl
  | entryHash value =>
    have moved : value ≠ row.entryHash := by
      rintro rfl
      exact changed rfl
    rw [← Bool.not_eq_true, around.edited_isValid sound rfl, Noticeable, around.last]
    cases after with
    | nil =>
      simp only [not_true_eq_false, false_or]
      constructor
      next =>
        intro broken
        cases shape : entryMutationIsErasureShaped row.toAuditEntry with
        | false => rfl
        | true => exact absurd ⟨rfl, trivial, .inr shape⟩ broken
      next =>
        rintro unshaped ⟨_, _, passing⟩
        cases passing with
        | inl matching =>
          have hashed := sound.matches_of_unshaped stored unshaped
          exact moved ((of_decide_eq_true matching).symm.trans hashed)
        | inr shape => exact Bool.false_ne_true (unshaped.symm.trans shape)
    | cons next rest =>
      refine iff_of_true ?_ (.inl (by simp))
      rintro ⟨_, later, _⟩
      exact moved (later.1.symm.trans (around.chain sound).2.2.1)
  | secretId value =>
    refine ofColumn ⟨rfl, rfl, rfl, rfl⟩ fun same => ?_
    cases (auditPayload_inj same).1
    exact changed rfl
  | versionId value =>
    refine ofColumn ⟨rfl, rfl, rfl, rfl⟩ fun same => ?_
    cases (auditPayload_inj same).2.1
    exact changed rfl
  | action value =>
    refine ofColumn ⟨rfl, rfl, rfl, rfl⟩ fun same => ?_
    cases (auditPayload_inj same).2.2.1
    exact changed rfl
  | result value =>
    refine ofColumn ⟨rfl, rfl, rfl, rfl⟩ fun same => ?_
    cases (auditPayload_inj same).2.2.2.1
    exact changed rfl
  | createdAt value =>
    refine ofColumn ⟨rfl, rfl, rfl, rfl⟩ fun same => ?_
    cases (auditPayload_inj same).2.2.2.2.1
    exact changed rfl
  | reqMeta value =>
    have payload : OfPayload row (.reqMeta value) := ⟨rfl, rfl, rfl, rfl⟩
    rw [around.payload_invalid sound injective stored payload]
    refine and_congr_right fun _ => not_congr ⟨fun same => (auditPayload_inj same).2.2.2.2.2, ?_⟩
    intro same
    simp only [auditPayload, auditFields, Edit.apply, same]

theorem tampering_noticed_iff (injective : Function.Injective hmac)
    (nonempty : ∀ payload, hmac payload ≠ "")
    (hex : ∀ userId, pseudonymRe (pseudonym userId) = true) {log : Log}
    (reached : Reached hmac pseudonym log) (workspaceId : Uuid) :
    (∃ entries head listed, verifyAuditChain hmac log workspaceId = .valid entries head listed ∧
        ∀ id ∈ listed, id ∈ log.erased) ∧
      ∀ row ∈ log.ofWorkspace workspaceId,
        (¬ log.isLast row →
          (verifyAuditChain hmac (log.removed row.id) workspaceId).isValid = false) ∧
        ∀ edit : Edit, edit.apply row ≠ row →
          ((verifyAuditChain hmac (log.edited row.id edit) workspaceId).isValid = false ↔
            Noticeable log row edit) := by
  have sound := Reached.sound nonempty hex reached
  refine ⟨sound.verifies workspaceId, ?_⟩
  intro row listed
  obtain ⟨stored, rfl⟩ := mem_ofWorkspace.mp listed
  obtain ⟨before, after, around⟩ := sound.around stored
  refine ⟨fun inside => ?_, fun edit changed => around.noticed sound injective stored changed⟩
  rw [← Bool.not_eq_true, around.removed_isValid sound]
  exact inside

def plainHmac (payload : List Char) : String := String.ofList ('h' :: payload)

def sampleDigest (_ : String) : String :=
  "9f86d081884c7d659a2feaa0c55ad015a3bf4f1b2b0b822cd15d6c15b0f00a08"

def deniedRead : AuditEntry :=
  { workspaceId := 1, actorUserId := "google-oauth2|alice", action := .get, result := .denied
    secretId := some 2, versionId := none, recipientIdentity := none, reqMeta := .null
    createdAt := (DateTime.make? 2026 1 2 3 4 5 6).get (by decide) }

def erasedLog : Log :=
  let log := appendAudit plainHmac {} deniedRead
  log.rewritten (fun row => decide (row.actorUserId = "google-oauth2|alice"))
    (eraseActor sampleDigest "google-oauth2|alice")

def erasedRow : SecretAccessLog :=
  eraseActor sampleDigest "google-oauth2|alice" (logged plainHmac {} deniedRead)

theorem plainHmac_injective : Function.Injective plainHmac := by
  intro left right same
  simpa [plainHmac] using String.ofList_inj.mp same

theorem plainHmac_ne_empty (payload : List Char) : plainHmac payload ≠ "" := by
  intro empty
  simpa [plainHmac] using congrArg String.toList empty

theorem plainHmac_ne_genesis (payload : List Char) : plainHmac payload ≠ auditGenesisHash := by
  intro same
  have texts := congrArg String.toList same
  simp [plainHmac, auditGenesisHash] at texts

theorem sampleDigest_hex (userId : String) : pseudonymRe (sampleDigest userId) = true := by
  show pseudonymRe (sampleDigest "") = true
  decide +kernel

theorem erasedLog_reached : Reached plainHmac sampleDigest erasedLog := by
  have taken : Runs.run (step plainHmac sampleDigest) {}
      [.append deniedRead, .eraseActor "google-oauth2|alice"] = some erasedLog := rfl
  exact .append .start (Runs.allowed_of_always (fun _ _ => trivial) _ _) taken

theorem erasedRow_stored : erasedLog.rows = [erasedRow] := rfl

theorem erasedRow_shaped : entryMutationIsErasureShaped erasedRow.toAuditEntry = true := by
  decide +kernel

-- The audit of a refused read, turned into a granted one once the reader is erased.
theorem erased_result_edit_unnoticed :
    Function.Injective plainHmac ∧ Reached plainHmac sampleDigest erasedLog ∧
      erasedRow ∈ erasedLog.ofWorkspace 1 ∧ (Edit.result .ok).apply erasedRow ≠ erasedRow ∧
      (verifyAuditChain plainHmac (erasedLog.edited erasedRow.id (.result .ok)) 1).isValid =
        true := by
  have sound := Reached.sound plainHmac_ne_empty sampleDigest_hex erasedLog_reached
  have stored : erasedRow ∈ erasedLog.rows := by simp [erasedRow_stored]
  have changed : (Edit.result .ok).apply erasedRow ≠ erasedRow := by
    intro same
    cases congrArg (fun row => row.result) same
  obtain ⟨before, after, around⟩ := sound.around stored
  have noticed := around.noticed sound plainHmac_injective stored changed
  refine ⟨plainHmac_injective, erasedLog_reached, mem_ofWorkspace.mpr ⟨stored, rfl⟩, changed, ?_⟩
  rw [← Bool.not_eq_false]
  exact fun invalid => Bool.false_ne_true ((noticed.mp invalid).symm.trans erasedRow_shaped)

def grantedRead : AuditEntry :=
  { deniedRead with actorUserId := "google-oauth2|bob", result := .ok }

def oneRead : Log := appendAudit plainHmac {} deniedRead

def twoReads : Log := appendAudit plainHmac oneRead grantedRead

def intactRow : SecretAccessLog := logged plainHmac oneRead grantedRead

-- A row whose reader is erased, and an intact one above it.
def mixedLog : Log :=
  twoReads.rewritten (fun row => decide (row.actorUserId = "google-oauth2|alice"))
    (eraseActor sampleDigest "google-oauth2|alice")

theorem twoReads_rows : twoReads.rows = oneRead.rows ++ [intactRow] := by
  have above : oneRead.ofWorkspace grantedRead.workspaceId = [logged plainHmac {} deniedRead] := rfl
  have predecessor : prevHashOf [logged plainHmac {} deniedRead] =
      (logged plainHmac {} deniedRead).entryHash := by
    simp only [prevHashOf, List.getLast?_singleton]
    exact if_neg (plainHmac_ne_empty _)
  have fresh : (logged plainHmac oneRead grantedRead).prevHash ∉
      (oneRead.ofWorkspace grantedRead.workspaceId).map SecretAccessLog.prevHash := by
    rw [logged, above, predecessor, List.map_singleton, List.mem_singleton]
    exact plainHmac_ne_genesis _
  rw [twoReads, appendAudit, if_neg fresh, intactRow]

theorem mixedLog_rows : mixedLog.rows = [erasedRow, intactRow] := by
  have unmatched : intactRow.actorUserId ≠ "google-oauth2|alice" := by
    simp [intactRow, logged, grantedRead]
  rw [mixedLog, Log.rewritten, twoReads_rows, List.map_append, List.map_singleton]
  rw [show eraseActor sampleDigest "google-oauth2|alice" intactRow = intactRow from if_neg unmatched]
  rfl

theorem tampering_noticed_iff_sample :
    (verifyAuditChain plainHmac mixedLog 1).isValid = true ∧
      (verifyAuditChain plainHmac (mixedLog.removed erasedRow.id) 1).isValid = false ∧
      (verifyAuditChain plainHmac (mixedLog.edited intactRow.id (.result .denied)) 1).isValid =
        false ∧
      (verifyAuditChain plainHmac (mixedLog.edited erasedRow.id (.result .ok)) 1).isValid =
        true := by
  have taken : Runs.run (step plainHmac sampleDigest) {}
      [.append deniedRead, .append grantedRead, .eraseActor "google-oauth2|alice"] =
        some mixedLog := rfl
  have reached : Reached plainHmac sampleDigest mixedLog :=
    .append .start (Runs.allowed_of_always (fun _ _ => trivial) _ _) taken
  obtain ⟨⟨entries, head, listed, valid, _⟩, later⟩ := tampering_noticed_iff plainHmac_injective
    plainHmac_ne_empty sampleDigest_hex reached 1
  have rows : mixedLog.ofWorkspace 1 = [erasedRow, intactRow] := by
    rw [Log.ofWorkspace, mixedLog_rows]
    rfl
  obtain ⟨removed, erased⟩ := later erasedRow (by simp [rows])
  obtain ⟨_, intact⟩ := later intactRow (by simp [rows])
  refine ⟨by rw [valid]; rfl, removed ?_, (intact (.result .denied) ?_).mpr ?_, ?_⟩
  next =>
    intro last
    have ids := congrArg (Option.map SecretAccessLog.id) ((congrArg List.getLast? rows).symm.trans last)
    cases ids
  next =>
    intro same
    cases congrArg (fun row => row.result) same
  next =>
    show entryMutationIsErasureShaped intactRow.toAuditEntry = false
    decide +kernel
  next =>
    rw [← Bool.not_eq_false]
    intro invalid
    have unshaped := (erased (.result .ok) fun same => by
      cases congrArg (fun row => row.result) same).mp invalid
    exact Bool.false_ne_true (unshaped.symm.trans erasedRow_shaped)

end Tampered

end MemoryCloud.Secrets
