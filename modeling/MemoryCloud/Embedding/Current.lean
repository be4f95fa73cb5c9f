import MemoryCloud.Embedding.Model

set_option autoImplicit false

/-!
# A searchable row has its present text

The claim's stamp fences the outcome of a run, not its write of the point: a run that lost its claim may
write over the point of a newer one. What it overwrote it puts back in the queue when it settles, unless
the newer run has written and is still on its way to its outcome.
-/

namespace MemoryCloud.Embedding

section Runs

variable {T : Type} {state next : State T} {index : Nat} {run moved : Run T}

-- The run has sent a point that nothing has answered for yet.
def Unsettled (run : Run T) : Prop :=
  run.wrote = true ∧ run.phase ≠ .done ∧ run.phase ≠ .seeding

def Disturbed (runs : List (Run T)) (index : Nat) : Prop :=
  ∃ (other : Nat) (run : Run T), other ≠ index ∧ runs[other]? = some run ∧ Unsettled run

structure Sound (state : State T) : Prop where
  apart : ∀ (first second : Nat) (left right : Run T), state.runs[first]? = some left →
    state.runs[second]? = some right → left.stamp = right.stamp → first = second
  text : ∀ (index : Nat) (run : Run T) (text : T), state.runs[index]? = some run →
    holds state.memory run = true → run.text = some text → text = state.memory.text
  read : ∀ (index : Nat) (run : Run T), state.runs[index]? = some run →
    (run.phase = .loaded ∨ run.phase = .written) → ∃ text, run.text = some text
  silent : ∀ (index : Nat) (run : Run T), state.runs[index]? = some run →
    (run.phase = .claimed ∨ run.phase = .loaded) → run.wrote = false
  written : ∀ (index : Nat) (run : Run T), state.runs[index]? = some run →
    holds state.memory run = true → run.phase = .written → state.memory.deleted = false →
      state.point = some state.memory.text ∨ Disturbed state.runs index
  fresh : state.memory.deleted = false → state.memory.status = .success →
    state.point = some state.memory.text ∨ ∃ run ∈ state.runs, Unsettled run

theorem found_set {runs : List (Run T)} {other : Nat} {found : Run T} :
    (runs.set index moved)[other]? = some found ↔
      (other = index ∧ index < runs.length ∧ found = moved) ∨
        (other ≠ index ∧ runs[other]? = some found) := by
  rw [List.getElem?_set]
  grind

theorem holds_iff {memory : Memory T} :
    holds memory run = true ↔ memory.status = .processing ∧ memory.attemptedAt = some run.stamp := by
  simp [holds]

theorem Sound.move (sound : Sound state) (found : state.runs[index]? = some run)
    (runs : next.runs = state.runs.set index moved)
    (stamp : moved.stamp = run.stamp ∨ ∀ other ∈ state.runs, other.stamp ≠ moved.stamp)
    (others : ∀ other ∈ state.runs, other.stamp ≠ moved.stamp → holds next.memory other = true →
      holds state.memory other = true)
    (text : next.memory.text = state.memory.text)
    (own : ∀ text, holds next.memory moved = true → moved.text = some text →
      text = state.memory.text)
    (read : moved.phase = .loaded ∨ moved.phase = .written → ∃ text, moved.text = some text)
    (silent : moved.phase = .claimed ∨ moved.phase = .loaded → moved.wrote = false)
    (written : ∀ (other : Nat) (holder : Run T), next.runs[other]? = some holder →
      holds next.memory holder = true → holder.phase = .written → next.memory.deleted = false →
        next.point = some next.memory.text ∨ Disturbed next.runs other)
    (fresh : next.memory.deleted = false → next.memory.status = .success →
      next.point = some next.memory.text ∨ ∃ run ∈ next.runs, Unsettled run) :
    Sound next where
  apart first second left right one two same := by
    rw [runs, found_set] at one two
    have apart := sound.apart
    grind
  text other holder content one held same := by
    rw [runs, found_set] at one
    have apart := sound.apart
    have kept := sound.text
    grind
  read other holder one phase := by
    rw [runs, found_set] at one
    have kept := sound.read
    grind
  silent other holder one phase := by
    rw [runs, found_set] at one
    have kept := sound.silent
    grind
  written := written
  fresh := fresh

theorem disturbed_set (found : state.runs[index]? = some run) {other : Nat}
    (disturbed : Disturbed state.runs other) (still : Unsettled run → Unsettled moved) :
    Disturbed (state.runs.set index moved) other := by
  obtain ⟨place, old, apart, there, unsettled⟩ := disturbed
  by_cases same : place = index
  next =>
    subst same
    rw [found] at there
    cases there
    refine ⟨place, moved, apart, found_set.mpr (.inl ⟨rfl, ?_, rfl⟩), still unsettled⟩
    exact (List.getElem?_eq_some_iff.mp found).1
  next => exact ⟨place, old, apart, found_set.mpr (.inr ⟨same, there⟩), unsettled⟩

theorem unsettled_set (found : state.runs[index]? = some run)
    (unsettled : ∃ run ∈ state.runs, Unsettled run) (still : Unsettled run → Unsettled moved) :
    ∃ run ∈ state.runs.set index moved, Unsettled run := by
  obtain ⟨old, there, unsettled⟩ := unsettled
  obtain ⟨place, there⟩ := List.mem_iff_getElem?.mp there
  by_cases same : place = index
  next =>
    subst same
    rw [found] at there
    cases there
    have bound := (List.getElem?_eq_some_iff.mp found).1
    exact ⟨moved, List.mem_iff_getElem?.mpr ⟨place, found_set.mpr (.inl ⟨rfl, bound, rfl⟩)⟩,
      still unsettled⟩
  next => exact ⟨old, List.mem_iff_getElem?.mpr ⟨place, found_set.mpr (.inr ⟨same, there⟩)⟩, unsettled⟩

theorem Sound.walk (sound : Sound state) (found : state.runs[index]? = some run)
    (stamp : moved.stamp = run.stamp) (still : Unsettled run → Unsettled moved)
    (own : moved.text = run.text ∨ moved.text = some state.memory.text)
    (phase : moved.phase ≠ .written) (read : moved.phase = .loaded → ∃ text, moved.text = some text)
    (silent : moved.phase = .claimed ∨ moved.phase = .loaded → moved.wrote = false) :
    Sound (state.put index moved) := by
  refine sound.move found rfl (.inl stamp) (fun other _ _ held => held) rfl ?_ ?_ silent ?_ ?_
  next =>
    intro text held known
    rcases own with same | same
    next =>
      refine sound.text index run text found ?_ (same ▸ known)
      rw [holds_iff] at held ⊢
      exact stamp ▸ held
    next => exact Option.some.inj (known.symm.trans same)
  next =>
    rintro (loaded | written)
    next => exact read loaded
    next => exact absurd written phase
  next =>
    intro other holder there held written live
    rcases found_set.mp there with ⟨_, _, rfl⟩ | ⟨_, there⟩
    next => exact absurd written phase
    next =>
      exact (sound.written other holder there held written live).imp_right fun disturbed =>
        disturbed_set found disturbed still
  next =>
    intro live success
    exact (sound.fresh live success).imp_right fun unsettled => unsettled_set found unsettled still

theorem load_sound (sound : Sound state) (found : state.runs[index]? = some run)
    (taken : load state index run = some next) : Sound next := by
  unfold load at taken
  split at taken
  next => cases taken
  next claimed =>
    have wrote := sound.silent index run found (.inl (of_not_not claimed))
    split at taken
    next =>
      cases taken
      exact sound.walk found rfl (by simp [Unsettled, wrote]) (.inl rfl) (by simp) (by simp) (by simp)
    next =>
      cases taken
      exact sound.walk found rfl (by simp [Unsettled, wrote]) (.inr rfl) (by simp) (fun _ => ⟨_, rfl⟩)
        fun _ => wrote

theorem Sound.leave (sound : Sound state) (found : state.runs[index]? = some run) {phase : Phase}
    (off : phase = .raised ∨ phase = .lost ∨ phase = .crashed) :
    Sound (state.put index { run with phase }) := by
  refine sound.walk found rfl ?_ (.inl rfl) ?_ ?_ ?_ <;>
    rcases off with rfl | rfl | rfl <;> simp +contextual [Unsettled]

theorem renew_sound (sound : Sound state) (found : state.runs[index]? = some run) {now : Time}
    {heard : Bool} (unseen : ∀ run ∈ state.runs, run.stamp ≠ now)
    (taken : renew state index run now heard = some next) : Sound next := by
  unfold renew at taken
  split at taken
  next => cases taken
  next held =>
    simp only [Bool.or_eq_true, Bool.not_eq_true', not_or, Bool.not_eq_false] at held
    obtain ⟨_, held⟩ := held
    cases taken
    have processing := (holds_iff.mp held).1
    have there := List.mem_of_getElem? found
    refine sound.move found rfl ?_ ?_ rfl ?_ ?_ ?_ ?_ ?_
    next =>
      cases heard with
      | true => exact .inr unseen
      | false => exact .inl rfl
    next =>
      intro other listed _ renewed
      exact absurd (Option.some.inj (holds_iff.mp renewed).2).symm (unseen other listed)
    next =>
      intro text renewed known
      refine sound.text index run text found held ?_
      cases heard <;> exact known
    next =>
      intro phase
      cases heard with
      | true => exact sound.read index run found phase
      | false => exact sound.read index run found phase
    next =>
      intro phase
      have silent := sound.silent index run found
      cases heard <;> exact silent phase
    next =>
      intro other holder one renewed written live
      rcases found_set.mp one with ⟨rfl, _, rfl⟩ | ⟨_, one⟩
      next =>
        cases heard with
        | false => exact absurd (Option.some.inj (holds_iff.mp renewed).2).symm (unseen run there)
        | true =>
          exact (sound.written other run found held written live).imp_right fun disturbed =>
            disturbed_set found disturbed id
      next =>
        exact absurd (Option.some.inj (holds_iff.mp renewed).2).symm
          (unseen holder (List.mem_of_getElem? one))
    next =>
      intro _ success
      cases processing.symm.trans success

-- A write of the point: until the run is done, the others answer for nothing.
theorem Sound.send (sound : Sound state) (found : state.runs[index]? = some run)
    (loaded : run.phase = .loaded) {phase : Phase} {point : Option T}
    (sent : phase = .written ∧ point = run.text ∨ phase = .raised) :
    Sound { state.put index { run with phase, wrote := true } with point } := by
  have bound := (List.getElem?_eq_some_iff.mp found).1
  have unsettled : Unsettled { run with phase, wrote := true } := by
    rcases sent with ⟨rfl, _⟩ | rfl <;> simp [Unsettled]
  have there : (state.runs.set index { run with phase, wrote := true })[index]? =
      some { run with phase, wrote := true } := found_set.mpr (.inl ⟨rfl, bound, rfl⟩)
  obtain ⟨text, known⟩ := sound.read index run found (.inl loaded)
  refine sound.move found rfl (.inl rfl) (fun other _ _ held => held) rfl ?_ (fun _ => ⟨text, known⟩)
    ?_ ?_ (fun _ _ => .inr ⟨_, List.mem_of_getElem? there, unsettled⟩)
  next => exact fun text held known => sound.text index run text found held known
  next => rcases sent with ⟨rfl, _⟩ | rfl <;> simp
  next =>
    intro other holder one held written _
    rcases found_set.mp one with ⟨_, _, rfl⟩ | ⟨apart, _⟩
    next =>
      left
      rcases sent with ⟨_, rfl⟩ | rfl
      next => exact known.trans (congrArg some (sound.text index run text found held known))
      next => cases written
    next => exact .inr ⟨index, _, Ne.symm apart, there, unsettled⟩

theorem write_sound (sound : Sound state) (found : state.runs[index]? = some run) {sent : Sent}
    (taken : write state index run sent = some next) : Sound next := by
  unfold write at taken
  split at taken
  next => cases taken
  next loaded =>
    have loaded := of_not_not loaded
    split at taken <;> cases taken
    next => exact sound.send found loaded (.inl ⟨rfl, rfl⟩)
    next => exact sound.send found loaded (.inr rfl)

-- An outcome that the run's own claim lets through.
theorem Sound.outcome (sound : Sound state) (found : state.runs[index]? = some run)
    (held : holds state.memory run = true) {memory : Memory T} {phase : Phase}
    (settled : memory.status ≠ .processing) (text : memory.text = state.memory.text)
    (deleted : memory.deleted = state.memory.deleted)
    (off : phase = .seeding ∨ phase = .done)
    (written : memory.status = .success → run.phase = .written) :
    Sound { state.put index { run with phase } with memory } := by
  have released : ∀ {run : Run T}, holds memory run = true → False :=
    fun renewed => settled (holds_iff.mp renewed).1
  refine sound.move found rfl (.inl rfl) (fun other _ _ renewed => (released renewed).elim) text
    (fun _ renewed => (released renewed).elim) ?_ ?_
    (fun _ _ _ renewed => (released renewed).elim) ?_
  next => rcases off with rfl | rfl <;> simp
  next => rcases off with rfl | rfl <;> simp
  next =>
    intro live success
    rcases sound.written index run found held (written success) (deleted ▸ live) with same |
      ⟨place, other, apart, there, unsettled⟩
    next => exact .inl (same.trans (congrArg some text.symm))
    next =>
      exact .inr ⟨other, List.mem_of_getElem? (found_set.mpr (.inr ⟨apart, there⟩)), unsettled⟩

theorem succeed_sound (sound : Sound state) (found : state.runs[index]? = some run)
    (taken : succeed state index run = some next) : Sound next := by
  unfold succeed finish at taken
  split at taken
  next => cases taken
  next written =>
    split at taken <;> cases taken
    next held =>
      exact sound.outcome found held (by simp) rfl rfl (.inl rfl) fun _ => of_not_not written
    next => exact sound.leave found (.inr (.inl rfl))

theorem fail_sound (sound : Sound state) (found : state.runs[index]? = some run) {failure : Failure}
    {now : Time} (taken : fail state index run failure now = some next) : Sound next := by
  unfold fail finish at taken
  split at taken
  next => cases taken
  next =>
    split at taken <;> cases taken
    next held => exact sound.outcome found held (by simp [failed]) rfl rfl (.inr rfl) (by simp [failed])
    next => exact sound.leave found (.inr (.inl rfl))

theorem Sound.row (sound : Sound state) {memory : Memory T}
    (held : ∀ run : Run T, holds memory run = true → holds state.memory run = true ∧
      memory.text = state.memory.text ∧ (memory.deleted = false → state.memory.deleted = false))
    (fresh : memory.deleted = false → memory.status = .success → state.memory.deleted = false ∧
      state.memory.status = .success ∧ memory.text = state.memory.text) :
    Sound (state.withMemory memory) where
  apart := sound.apart
  text index run text found still known :=
    (sound.text index run text found (held run still).1 known).trans (held run still).2.1.symm
  read := sound.read
  silent := sound.silent
  written index run found still written live := by
    obtain ⟨before, text, deleted⟩ := held run still
    rw [State.withMemory, text]
    exact sound.written index run found before written (deleted live)
  fresh live success := by
    obtain ⟨before, status, text⟩ := fresh live success
    rw [State.withMemory, text]
    exact sound.fresh before status

-- The row leaves its state: no run holds it and no point is promised.
theorem Sound.requeued (sound : Sound state) {memory : Memory T}
    (out : memory.status = .pending ∨ memory.status = .failed) : Sound (state.withMemory memory) := by
  refine sound.row ?_ ?_
  next =>
    intro run held
    rcases out with out | out <;> cases out.symm.trans (holds_iff.mp held).1
  next =>
    intro _ success
    rcases out with out | out <;> cases out.symm.trans success

theorem requeueEmbedding_cases {memory : Memory T} (unsuppressed : memory.suppressed = false)
    (includeProcessing : Bool) :
    (requeueEmbedding memory includeProcessing).status = .pending ∨
      (requeueEmbedding memory includeProcessing = memory ∧
        ¬(memory.deleted = false ∧ memory.status = .success)) := by
  unfold requeueEmbedding
  split
  next => exact .inl rfl
  next kept =>
    refine .inr ⟨rfl, ?_⟩
    rintro ⟨live, success⟩
    simp [live, unsuppressed, success] at kept

-- A run that settles leaves the point to the run whose claim stands, once that run has written.
def InTurn (state : State T) (index : Nat) : Prop :=
  ∀ run holder, state.runs[index]? = some run → run.wrote = true → holder ∈ state.runs →
    holds state.memory holder = true → holder.phase = .written → state.memory.deleted = false →
      state.point = holder.text

theorem requeueEmbedding_text (memory : Memory T) (includeProcessing : Bool) :
    (requeueEmbedding memory includeProcessing).text = memory.text := by
  unfold requeueEmbedding
  split <;> rfl

theorem settle_sound (sound : Sound state) (unsuppressed : state.memory.suppressed = false)
    (found : state.runs[index]? = some run)
    (inTurn : InTurn state index) (taken : settle state index run = some next) : Sound next := by
  unfold settle at taken
  split at taken
  next => cases taken
  next =>
    cases taken
    cases wrote : run.wrote with
    | false =>
      refine sound.walk found rfl ?_ (.inl rfl) ?_ ?_ ?_ <;> simp [Unsettled, wrote]
    | true =>
      simp only [if_true]
      rcases requeueEmbedding_cases unsuppressed false with out | ⟨same, unfresh⟩
      next =>
        have released : ∀ {run : Run T}, holds (requeueEmbedding state.memory false) run = true →
            False := fun held => by cases out.symm.trans (holds_iff.mp held).1
        refine sound.move found rfl (.inl rfl) (fun other _ _ held => (released held).elim)
          (requeueEmbedding_text _ _) (fun _ held => (released held).elim) (by simp) (by simp)
          (fun _ _ _ held => (released held).elim) ?_
        intro _ success
        cases out.symm.trans success
      next =>
        rw [same]
        refine sound.move found rfl (.inl rfl) (fun other _ _ held => held) rfl ?_ (by simp) (by simp)
          ?_ (fun live success => absurd ⟨live, success⟩ unfresh)
        next => exact fun text held known => sound.text index run text found held known
        next =>
          intro other holder one held written live
          rcases found_set.mp one with ⟨_, _, rfl⟩ | ⟨_, one⟩
          next => cases written
          next =>
            obtain ⟨text, known⟩ := sound.read other holder one (.inr written)
            have point := inTurn run holder found wrote (List.mem_of_getElem? one) held written live
            exact .inl (point.trans (known.trans
              (congrArg some (sound.text other holder text one held known))))

theorem claim_sound (sound : Sound state) {now : Time} (unseen : ∀ run ∈ state.runs, run.stamp ≠ now) :
    Sound { state with memory := claimed state.memory now, runs := state.runs ++ [{ stamp := now }] } := by
  have stale : ∀ run ∈ state.runs, ¬holds (claimed state.memory now) run = true :=
    fun run listed held => unseen run listed (Option.some.inj (holds_iff.mp held).2).symm
  have found : ∀ {index : Nat} {run : Run T}, (state.runs ++ [{ stamp := now }])[index]? = some run →
      (state.runs[index]? = some run ∧ run ∈ state.runs) ∨
        (index = state.runs.length ∧ run = { stamp := now }) := by
    intro index run there
    rw [List.getElem?_append] at there
    split at there
    next => exact .inl ⟨there, List.mem_of_getElem? there⟩
    next beyond =>
      right
      rw [List.getElem?_singleton] at there
      grind
  constructor
  next =>
    intro first second left right one two same
    have apart := sound.apart
    rcases found one with ⟨one, there⟩ | ⟨rfl, rfl⟩ <;>
      rcases found two with ⟨two, here⟩ | ⟨rfl, rfl⟩
    next => exact sound.apart first second left right one two same
    next => exact absurd same (unseen left there)
    next => exact absurd same.symm (unseen right here)
    next => rfl
  next =>
    intro index run text one held known
    rcases found one with ⟨_, there⟩ | ⟨rfl, rfl⟩
    next => exact absurd held (stale run there)
    next => cases known
  next =>
    intro index run one phase
    rcases found one with ⟨one, _⟩ | ⟨rfl, rfl⟩
    next => exact sound.read index run one phase
    next => rcases phase with phase | phase <;> cases phase
  next =>
    intro index run one phase
    rcases found one with ⟨one, _⟩ | ⟨rfl, rfl⟩
    next => exact sound.silent index run one phase
    next => rfl
  next =>
    intro index run one held written
    rcases found one with ⟨_, there⟩ | ⟨rfl, rfl⟩
    next => exact absurd held (stale run there)
    next => cases written
  next =>
    intro _ success
    cases success

end Runs

section Reached

variable {T : Type} [DecidableEq T]

-- No two claims and renewals have the same stamp, and the runs settle in turn.
def Orderly (state : State T) : Action T → Prop
  | .claim now | .renew _ now _ => ∀ run ∈ state.runs, run.stamp ≠ now
  | .settle index => InTurn state index
  | _ => True

theorem step_sound {state next : State T} {action : Action T} (sound : Sound state)
    (unsuppressed : state.memory.suppressed = false) (orderly : Orderly state action)
    (taken : step state action = some next) : Sound next := by
  cases action with
  | claim now =>
    simp only [step] at taken
    split at taken
    next =>
      cases taken
      exact claim_sound sound orderly
    next => cases taken
  | load index =>
    obtain ⟨run, found, taken⟩ := runStep_some taken
    exact load_sound sound found taken
  | renew index now heard =>
    obtain ⟨run, found, taken⟩ := runStep_some taken
    exact renew_sound sound found orderly taken
  | write index sent =>
    obtain ⟨run, found, taken⟩ := runStep_some taken
    exact write_sound sound found taken
  | raise index =>
    obtain ⟨run, found, taken⟩ := runStep_some taken
    split at taken <;> cases taken
    exact sound.leave found (.inl rfl)
  | succeed index =>
    obtain ⟨run, found, taken⟩ := runStep_some taken
    exact succeed_sound sound found taken
  | seeded index =>
    obtain ⟨run, found, taken⟩ := runStep_some taken
    split at taken <;> cases taken
    next seeding =>
      refine sound.walk found rfl ?_ (.inl rfl) ?_ ?_ ?_ <;> simp [Unsettled, seeding]
  | fail index failure now =>
    obtain ⟨run, found, taken⟩ := runStep_some taken
    exact fail_sound sound found taken
  | settle index =>
    obtain ⟨run, found, taken⟩ := runStep_some taken
    exact settle_sound sound unsuppressed found orderly taken
  | crash index =>
    obtain ⟨run, found, taken⟩ := runStep_some taken
    split at taken <;> cases taken
    exact sound.leave found (.inr (.inr rfl))
  | edit text =>
    obtain ⟨memory, edited, rfl⟩ := Option.map_eq_some_iff.mp taken
    unfold edit at edited
    split at edited
    next => cases edited
    next =>
      split at edited <;> cases edited
      next => exact sound
      next => exact sound.requeued (.inl rfl)
  | requeue includeProcessing =>
    cases taken
    rcases requeueEmbedding_cases unsuppressed includeProcessing with out | ⟨same, _⟩
    next => exact sound.requeued (.inl out)
    next =>
      rw [same]
      exact sound
  | switch =>
    simp only [step] at taken
    split at taken <;> cases taken
    exact sound.requeued (.inl rfl)
  | retry =>
    simp only [step] at taken
    split at taken <;> cases taken
    exact sound.requeued (.inl rfl)
  | expire now =>
    simp only [step] at taken
    split at taken <;> cases taken
    exact sound.requeued (.inr rfl)
  | forget =>
    simp only [step] at taken
    split at taken <;> cases taken
    refine sound.row (fun run held => ⟨held, rfl, ?_⟩) ?_ <;> intro live <;> cases live
  | restore =>
    simp only [step] at taken
    split at taken <;> cases taken
    exact sound.requeued (.inl rfl)
  | dropPoint =>
    simp only [step] at taken
    split at taken <;> cases taken
    next deleted =>
      have gone : state.memory.deleted = false → False := fun live => by cases live.symm.trans deleted
      exact { sound with
        written := fun _ _ _ _ _ live => (gone live).elim
        fresh := fun live => (gone live).elim }

omit [DecidableEq T] in
theorem start_sound (text : T) : Sound ({ memory := { text } } : State T) where
  apart := by simp
  text := by simp
  read := by simp
  silent := by simp
  written := by simp
  fresh := by simp

abbrev Reached (text : T) : State T → Prop := Runs.Reaches step Orderly { memory := { text } }

def orderly (state : State T) : Action T → Bool
  | .claim now | .renew _ now _ => state.runs.all fun run => run.stamp ≠ now
  | .settle _ => state.memory.status ≠ .processing
  | _ => true

end Reached

end MemoryCloud.Embedding
