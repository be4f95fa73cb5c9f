import Mathlib.Tactic.FieldSimp
import Mathlib.Tactic.GCongr
import Mathlib.Tactic.Linarith
import Mathlib.Tactic.Positivity
import Mathlib.Tactic.Ring
import MemoryCloud.HybridSearch.Blend

set_option autoImplicit false

/-!
# Raising one score of an arm

An arm is divided by its highest score. A raise that makes a new highest score shrinks the other
scores towards 0, which lowers the positive ones and lifts the negative ones; an arm whose scores
are all negative is turned round.
-/

namespace MemoryCloud.HybridSearch

open StableSort

variable {I F P : Type} [DecidableEq I] [Field F] [LinearOrder F]

def raise (results : List (Hit I F P)) (id : I) (score : F) : List (Hit I F P) :=
  results.map fun result => if result.id = id then { result with score := score } else result

structure Peak (results : List (Hit I F P)) (top : F) : Prop where
  above : ∀ result ∈ results, result.score ≤ top
  held : ∃ result ∈ results, result.score = top

section Peaks

variable {results : List (Hit I F P)} {top : F}

omit [DecidableEq I] [Field F] in
theorem peak_maxScore (first : Hit I F P) (rest : List (Hit I F P)) :
    Peak (first :: rest) (maxScore first rest) := by
  have run : ∀ (rest : List F) (start : F), start ≤ rest.foldl max start ∧
      (∀ score ∈ rest, score ≤ rest.foldl max start) ∧
      (rest.foldl max start = start ∨ rest.foldl max start ∈ rest) := by
    intro rest
    induction rest with
    | nil => exact fun start => ⟨le_refl _, by simp, .inl rfl⟩
    | cons score rest ih =>
      intro start
      obtain ⟨low, above, held⟩ := ih (max start score)
      refine ⟨(le_max_left _ _).trans low,
        List.forall_mem_cons.mpr ⟨(le_max_right _ _).trans low, above⟩, ?_⟩
      rw [List.foldl_cons]
      rcases held with is | later
      next =>
        rcases max_choice start score with isStart | isScore
        next => exact .inl (is.trans isStart)
        next => exact .inr (List.mem_cons.mpr (.inl (is.trans isScore)))
      next => exact .inr (List.mem_cons_of_mem _ later)
  obtain ⟨low, above, held⟩ := run (rest.map Hit.score) first.score
  constructor
  next =>
    exact List.forall_mem_cons.mpr ⟨low, fun result listed => above _ (List.mem_map_of_mem listed)⟩
  next =>
    rcases held with is | later
    next => exact ⟨first, List.mem_cons_self, is.symm⟩
    next =>
      obtain ⟨result, listed, is⟩ := List.mem_map.mp later
      exact ⟨result, List.mem_cons_of_mem _ listed, is⟩

omit [DecidableEq I] [Field F] in
theorem exists_peak {result : Hit I F P} (listed : result ∈ results) : ∃ top, Peak results top := by
  cases results with
  | nil => cases listed
  | cons first rest => exact ⟨_, peak_maxScore first rest⟩

omit [DecidableEq I] [Field F] in
theorem Peak.unique {other : F} (peak : Peak results top) (peak' : Peak results other) :
    top = other := by
  obtain ⟨result, listed, is⟩ := peak.held
  obtain ⟨result', listed', is'⟩ := peak'.held
  exact le_antisymm (is ▸ peak'.above result listed) (is' ▸ peak.above result' listed')

omit [DecidableEq I] in
theorem Peak.scale (peak : Peak results top) : scale results = if top = 0 then 1 else top := by
  cases results with
  | nil =>
    obtain ⟨_, listed, _⟩ := peak.held
    cases listed
  | cons first rest => rw [HybridSearch.scale, peak.unique (peak_maxScore first rest)]

theorem share_hit (distinct : (ids results).Nodup) {result : Hit I F P} (listed : result ∈ results) :
    share results result.id = result.score / scale results := by
  rw [share, scoreOf_eq_some distinct listed, Option.getD_some]

theorem share_missing {id : I} (missing : id ∉ ids results) : share results id = 0 := by
  rw [share, scoreOf_eq_none.mpr missing, Option.getD_none, zero_div]

omit [Field F] [LinearOrder F] in
theorem ids_raise (id : I) (score : F) : ids (raise results id score) = ids results := by
  rw [ids, ids, raise, List.map_map]
  refine List.map_congr_left fun result _ => ?_
  rw [Function.comp_apply]
  split <;> rfl

omit [Field F] [LinearOrder F] in
theorem raised_mem {raised : Hit I F P} (listed : raised ∈ results) (score : F) :
    { raised with score := score } ∈ raise results raised.id score :=
  List.mem_map.mpr ⟨raised, listed, if_pos rfl⟩

omit [Field F] [LinearOrder F] in
theorem other_mem {result : Hit I F P} {id : I} (listed : result ∈ results) (other : result.id ≠ id)
    (score : F) : result ∈ raise results id score :=
  List.mem_map.mpr ⟨result, listed, if_neg other⟩

omit [Field F] in
theorem Peak.raise (distinct : (ids results).Nodup) (peak : Peak results top) {raised : Hit I F P}
    (listed : raised ∈ results) {score : F} (higher : raised.score < score) :
    Peak (raise results raised.id score) (max top score) := by
  constructor
  next =>
    intro result within
    obtain ⟨old, before, rfl⟩ := List.mem_map.mp within
    split
    next => exact le_max_right _ _
    next => exact (peak.above old before).trans (le_max_left _ _)
  next =>
    rcases le_or_gt score top with low | high
    next =>
      obtain ⟨result, before, is⟩ := peak.held
      have below : raised.score < result.score := is ▸ higher.trans_le low
      refine ⟨result, other_mem before (fun same => ?_) score, is.trans (max_eq_left low).symm⟩
      exact absurd (List.inj_on_of_nodup_map distinct before listed same ▸ below) (lt_irrefl _)
    next => exact ⟨_, raised_mem listed score, (max_eq_right high.le).symm⟩

end Peaks

section Leading

variable {order : List I} {score score' : I → F} {first second : I}

def Leads (order : List I) (score : I → F) (first second : I) : Prop :=
  score second ≤ score first ∧ (score first ≤ score second → Before order first second)

omit [DecidableEq I] [Field F] in
theorem before_ranking (nodup : order.Nodup) (one : first ∈ order) (two : second ∈ order)
    (apart : first ≠ second) :
    Before (ranking order score) first second ↔ Leads order score first second := by
  have total : Std.Total fun first second => score second ≤ score first :=
    ⟨fun first second => le_total _ _⟩
  have trans : IsTrans I fun first second => score second ≤ score first :=
    ⟨fun _ _ _ one two => two.trans one⟩
  exact before_insertionSort nodup one two apart

omit [DecidableEq I] [Field F] in
theorem leads_total (one : first ∈ order) (two : second ∈ order) (apart : first ≠ second) :
    Leads order score first second ∨ Leads order score second first := by
  rcases lt_trichotomy (score first) (score second) with less | tie | more
  next => exact .inr ⟨less.le, fun back => absurd less (not_lt.mpr back)⟩
  next =>
    exact (before_total one two apart).imp (fun before => ⟨tie.ge, fun _ => before⟩)
      fun before => ⟨tie.le, fun _ => before⟩
  next => exact .inl ⟨more.le, fun back => absurd more (not_lt.mpr back)⟩

omit [DecidableEq I] [Field F] in
theorem Leads.mono (leads : Leads order score first second) (up : score first ≤ score' first)
    (down : score' second ≤ score second) : Leads order score' first second :=
  ⟨down.trans (leads.1.trans up), fun back => leads.2 (up.trans (back.trans down))⟩

omit [DecidableEq I] [Field F] in
theorem leads_of_lt (less : score second < score first) : Leads order score first second :=
  ⟨less.le, fun back => absurd less (not_lt.mpr back)⟩

omit [DecidableEq I] [Field F] in
theorem leads_congr (same : score first = score' first) (same' : score second = score' second) :
    Leads order score first second ↔ Leads order score' first second := by
  rw [Leads, Leads, same, same']

end Leading

section Arms

variable (results : List (Hit I F P)) (weight : F) (base : I → F) (order : List I)

def total (id : I) : F := share results id * weight + base id

def Ordered : Prop :=
  ∀ low ∈ results, ∀ high ∈ results, low.score < high.score →
    share results low.id ≤ share results high.id

def Keeps : Prop :=
  ∀ raised ∈ results, ∀ score, raised.score < score → ∀ id ∈ order, id ≠ raised.id →
    Leads order (total results weight base) raised.id id →
    Leads order (total (raise results raised.id score) weight base) raised.id id

-- The arms that a ranking respects. With a score that is not negative: where a document stands
-- above one with a negative score, the other arm gives the lower one at most the weight more. With
-- negative scores alone: they are all the same, and the arm has no weight, or it has one document
-- that stays where it is without it.
def ArmFits : Prop :=
  if ∀ result ∈ results, result.score < 0 then
    (∀ first ∈ results, ∀ second ∈ results, first.score = second.score) ∧
      (weight = 0 ∨ (∀ first ∈ results, ∀ second ∈ results, first = second) ∧
        ∀ raised ∈ results, ∀ id ∈ order, id ≠ raised.id →
          Leads order (total results weight base) raised.id id → Leads order base raised.id id)
  else
    ∀ high ∈ results, ∀ low ∈ results, low.score < 0 →
      Leads order (total results weight base) high.id low.id → base low.id ≤ weight + base high.id

end Arms

section Shares

variable [IsStrictOrderedRing F] {results : List (Hit I F P)} {top weight : F} {base : I → F}
  {order : List I}

omit [IsStrictOrderedRing F] in
theorem Peak.share_top (distinct : (ids results).Nodup) (peak : Peak results top)
    {result : Hit I F P} (listed : result ∈ results) (is : result.score = top) :
    share results result.id = if top = 0 then 0 else 1 := by
  rw [share_hit distinct listed, peak.scale, is]
  split
  next zero => rw [zero, zero_div]
  next other => exact div_self other

theorem Ordered.share_le (distinct : (ids results).Nodup) (ordered : Ordered results) (id : I) :
    share results id ≤ 1 := by
  by_cases known : id ∈ ids results
  next =>
    obtain ⟨result, listed, rfl⟩ := List.mem_map.mp known
    obtain ⟨top, peak⟩ := exists_peak listed
    obtain ⟨best, listed', is⟩ := peak.held
    have bound : share results best.id ≤ 1 := by
      rw [peak.share_top distinct listed' is]
      split
      next => exact zero_le_one
      next => exact le_refl _
    rcases (peak.above result listed).lt_or_eq with less | same
    next => exact (ordered result listed best listed' (is ▸ less)).trans bound
    next =>
      rw [peak.share_top distinct listed same, ← peak.share_top distinct listed' is]
      exact bound
  next =>
    rw [share_missing known]
    exact zero_le_one

omit [DecidableEq I] in
theorem Peak.scale_pos (peak : Peak results top) (nonneg : 0 ≤ top) : 0 < HybridSearch.scale results := by
  rw [peak.scale]
  split
  next => exact zero_lt_one
  next other => exact lt_of_le_of_ne nonneg (Ne.symm other)

theorem Peak.ordered (distinct : (ids results).Nodup) (peak : Peak results top) (nonneg : 0 ≤ top) :
    Ordered results := by
  intro low listed high listed' less
  rw [share_hit distinct listed, share_hit distinct listed']
  exact div_le_div_of_nonneg_right less.le (peak.scale_pos nonneg).le

variable (weight base) in
omit [IsStrictOrderedRing F] in
theorem raised_total (distinct : (ids results).Nodup) (peak : Peak results top) {raised : Hit I F P}
    (listed : raised ∈ results) {score : F} (new : top < score) (other : score ≠ 0) :
    total (raise results raised.id score) weight base raised.id = weight + base raised.id ∧
      (∀ result ∈ results, result.id ≠ raised.id →
        total (raise results raised.id score) weight base result.id =
          result.score / score * weight + base result.id) ∧
      ∀ id ∉ ids results, total (raise results raised.id score) weight base id = base id := by
  have peak' := peak.raise distinct listed ((peak.above raised listed).trans_lt new)
  rw [max_eq_right new.le] at peak'
  have distinct' : (ids (raise results raised.id score)).Nodup := by
    rw [ids_raise]
    exact distinct
  have scaled : HybridSearch.scale (raise results raised.id score) = score := by
    rw [peak'.scale, if_neg other]
  refine ⟨?_, fun result within apart => ?_, fun id missing => ?_⟩
  next =>
    have here := peak'.share_top distinct' (raised_mem listed score) rfl
    rw [if_neg other] at here
    rw [total, here, one_mul]
  next =>
    rw [total, share_hit distinct' (other_mem within apart score), scaled]
  next =>
    rw [total, share_missing (by rw [ids_raise]; exact missing), zero_mul, zero_add]

end Shares

section Raising

variable [IsStrictOrderedRing F] {results : List (Hit I F P)} {top weight : F} {base : I → F}
  {order : List I} (distinct : (ids results).Nodup) (positive : 0 ≤ weight)

include distinct

variable (weight base) in
omit [IsStrictOrderedRing F] in
theorem raised_low (peak : Peak results top) {raised : Hit I F P} (listed : raised ∈ results)
    {score : F} (higher : raised.score < score) (low : score ≤ top) :
    total (raise results raised.id score) weight base raised.id =
        score / scale results * weight + base raised.id ∧
      ∀ id, id ≠ raised.id →
        total (raise results raised.id score) weight base id = total results weight base id := by
  have peak' := peak.raise distinct listed higher
  rw [max_eq_left low] at peak'
  have scaled : scale (raise results raised.id score) = scale results := by
    rw [peak'.scale, peak.scale]
  have distinct' : (ids (raise results raised.id score)).Nodup := by
    rw [ids_raise]
    exact distinct
  constructor
  next => rw [total, share_hit distinct' (raised_mem listed score), scaled]
  next =>
    intro id apart
    by_cases known : id ∈ ids results
    next =>
      obtain ⟨result, within, rfl⟩ := List.mem_map.mp known
      rw [total, total, share_hit distinct' (other_mem within apart score), share_hit distinct within,
        scaled]
    next =>
      rw [total, total, share_missing known, share_missing (by rw [ids_raise]; exact known)]

include positive

omit distinct positive in
theorem exists_far (top product : F) {room : F} (wide : 0 < room) :
    ∃ score, top < score ∧ product < room * score := by
  refine ⟨max top (product / room) + 1, (le_max_left _ _).trans_lt (lt_add_one _), ?_⟩
  rw [← div_lt_iff₀' wide]
  exact (le_max_right _ _).trans_lt (lt_add_one _)

theorem keeps_of_fits (peak : Peak results top) (nonneg : 0 ≤ top)
    (fits : ∀ high ∈ results, ∀ low ∈ results, low.score < 0 →
      Leads order (total results weight base) high.id low.id → base low.id ≤ weight + base high.id) :
    Keeps results weight base order := by
  intro raised listed score higher id _ apart leads
  have scaled := peak.scale_pos nonneg
  rcases le_or_gt score top with low | new
  next =>
    obtain ⟨mine, others⟩ := raised_low weight base distinct peak listed higher low
    refine leads.mono ?_ (others id apart).le
    rw [mine, total, share_hit distinct listed]
    gcongr
  next =>
    have above : 0 < score := nonneg.trans_lt new
    obtain ⟨mine, others, missing⟩ :=
      raised_total weight base distinct peak listed new above.ne'
    have up : total results weight base raised.id ≤
        total (raise results raised.id score) weight base raised.id := by
      rw [mine, total]
      have bound := (peak.ordered distinct nonneg).share_le distinct raised.id
      have lighter := mul_le_of_le_one_left positive bound
      linarith
    by_cases known : id ∈ ids results
    next =>
      obtain ⟨result, within, rfl⟩ := List.mem_map.mp known
      rcases lt_or_ge result.score 0 with negative | nonneg'
      next =>
        rcases positive.eq_or_lt with zero | heavy
        next =>
          refine leads.mono up ?_
          rw [others result within apart, total, ← zero, mul_zero, mul_zero]
        next =>
          refine leads_of_lt ?_
          rw [others result within apart, mine]
          have fit := fits raised listed result within negative leads
          have lowered : result.score / score * weight < 0 :=
            mul_neg_of_neg_of_pos (div_neg_of_neg_of_pos negative above) heavy
          linarith
      next =>
        refine leads.mono up ?_
        rw [others result within apart, total, share_hit distinct within]
        have smaller : scale results ≤ score ∨ result.score = 0 := by
          rw [peak.scale]
          split
          next zero => exact .inr (le_antisymm (zero ▸ peak.above result within) nonneg')
          next => exact .inl new.le
        rcases smaller with smaller | zero
        next => gcongr
        next => rw [zero, zero_div, zero_div]
    next =>
      refine leads.mono up ?_
      rw [missing id known, total, share_missing known, zero_mul, zero_add]

-- Where the arm does not fit, a raise that is high enough lifts a negative score past it.
theorem fits_of_keeps (within : ∀ id ∈ ids results, id ∈ order) (peak : Peak results top)
    (nonneg : 0 ≤ top) (keeps : Keeps results weight base order) :
    ∀ high ∈ results, ∀ low ∈ results, low.score < 0 →
      Leads order (total results weight base) high.id low.id →
      base low.id ≤ weight + base high.id := by
  intro high listed low listed' negative leads
  by_contra gap
  rw [not_le] at gap
  have apart : low.id ≠ high.id := by
    intro same
    rw [same] at gap
    linarith
  have room : 0 < base low.id - (weight + base high.id) := by linarith
  obtain ⟨score, new, far⟩ := exists_far top (weight * -low.score) room
  have above := nonneg.trans_lt new
  have kept := (keeps high listed score ((peak.above high listed).trans_lt new) low.id
    (within _ (List.mem_map_of_mem listed')) apart leads).1
  obtain ⟨mine, others, _⟩ :=
    raised_total weight base distinct peak listed new above.ne'
  rw [mine, others low listed' apart] at kept
  have near : base low.id - (weight + base high.id) ≤ weight * -low.score / score := by
    have same : low.score / score * weight = -(weight * -low.score / score) := by ring
    linarith
  rw [le_div_iff₀ above] at near
  exact absurd far (not_lt.mpr near)

omit positive in
theorem same_of_ordered (negative : ∀ result ∈ results, result.score < 0) (ordered : Ordered results) :
    ∀ first ∈ results, ∀ second ∈ results, first.score = second.score := by
  have apart : ∀ low ∈ results, ∀ high ∈ results, ¬ low.score < high.score := by
    intro low listed high listed' less
    obtain ⟨top, peak⟩ := exists_peak listed
    obtain ⟨best, within, is⟩ := peak.held
    have below : top < 0 := is ▸ negative best within
    have shares := ordered low listed high listed' less
    rw [share_hit distinct listed, share_hit distinct listed', peak.scale, if_neg below.ne,
      div_le_div_right_of_neg below] at shares
    exact absurd less (not_lt.mpr shares)
  intro first listed second listed'
  exact le_antisymm (not_lt.mp (apart second listed' first listed))
    (not_lt.mp (apart first listed second listed'))

variable (weight base) in
omit [IsStrictOrderedRing F] positive in
theorem total_same (negative : ∀ result ∈ results, result.score < 0)
    (same : ∀ first ∈ results, ∀ second ∈ results, first.score = second.score) {result : Hit I F P}
    (listed : result ∈ results) :
    Peak results result.score ∧ total results weight base result.id = weight + base result.id := by
  have peak : Peak results result.score :=
    ⟨fun other within => (same other within result listed).le, result, listed, rfl⟩
  refine ⟨peak, ?_⟩
  rw [total, peak.share_top distinct listed rfl, if_neg (negative result listed).ne, one_mul]

-- Two negative documents: a raise of the upper one towards 0 lifts the lower one past it.
theorem single_of_keeps (within : ∀ id ∈ ids results, id ∈ order) (heavy : weight ≠ 0)
    (negative : ∀ result ∈ results, result.score < 0)
    (same : ∀ first ∈ results, ∀ second ∈ results, first.score = second.score)
    (keeps : Keeps results weight base order) : ∀ first ∈ results, ∀ second ∈ results, first = second := by
  have pushed : ∀ high ∈ results, ∀ low ∈ results, low.id ≠ high.id →
      ¬ Leads order (total results weight base) high.id low.id := by
    intro high listed low listed' apart leads
    have heavier : 0 < weight := lt_of_le_of_ne positive (Ne.symm heavy)
    have below := negative high listed
    obtain ⟨factor, beyond, far⟩ := exists_far 1 (weight + base high.id - base low.id) heavier
    have up : 0 < factor := zero_lt_one.trans beyond
    have new : high.score < high.score / factor := by
      rw [lt_div_iff₀ up]
      exact mul_lt_of_one_lt_right below beyond
    have nonzero : high.score / factor ≠ 0 := (div_neg_of_neg_of_pos below up).ne
    obtain ⟨mine, others, _⟩ :=
      raised_total weight base distinct (total_same weight base distinct negative same listed).1 listed
        new nonzero
    have kept := (keeps high listed _ new low.id (within _ (List.mem_map_of_mem listed')) apart leads).1
    have ratio : low.score / (high.score / factor) = factor := by
      rw [same low listed' high listed, div_div_cancel₀ below.ne]
    rw [mine, others low listed' apart, ratio] at kept
    linarith [mul_comm factor weight]
  intro first listed second listed'
  by_contra apart
  have ids' : first.id ≠ second.id :=
    fun equal => apart (List.inj_on_of_nodup_map distinct listed listed' equal)
  have either : Leads order (total results weight base) first.id second.id ∨ _ :=
    leads_total (within _ (List.mem_map_of_mem listed)) (within _ (List.mem_map_of_mem listed')) ids'
  rcases either with leads | leads
  next => exact pushed first listed second listed' (Ne.symm ids') leads
  next => exact pushed second listed' first listed ids' leads

variable (weight base) in
omit [IsStrictOrderedRing F] positive in
theorem raised_single (negative : ∀ result ∈ results, result.score < 0)
    (single : ∀ first ∈ results, ∀ second ∈ results, first = second) {raised : Hit I F P}
    (listed : raised ∈ results) {score : F} (higher : raised.score < score) :
    total (raise results raised.id score) weight base raised.id =
        (if score = 0 then 0 else weight) + base raised.id ∧
      ∀ id, id ≠ raised.id → total results weight base id = base id ∧
        total (raise results raised.id score) weight base id = base id := by
  have same : ∀ first ∈ results, ∀ second ∈ results, first.score = second.score :=
    fun first one second two => congrArg Hit.score (single first one second two)
  have missing : ∀ id, id ≠ raised.id → id ∉ ids results := by
    intro id apart known
    obtain ⟨other, within, rfl⟩ := List.mem_map.mp known
    exact apart (congrArg Hit.id (single other within raised listed))
  have peak := (total_same weight base distinct negative same listed).1.raise
    distinct listed higher
  rw [max_eq_right higher.le] at peak
  have distinct' : (ids (raise results raised.id score)).Nodup := by
    rw [ids_raise]
    exact distinct
  constructor
  next =>
    rw [total, peak.share_top distinct' (raised_mem listed score) rfl]
    split
    next => rw [zero_mul]
    next => rw [one_mul]
  next =>
    intro id apart
    have gone := missing id apart
    rw [total, total, share_missing gone, share_missing (by rw [ids_raise]; exact gone), zero_mul,
      zero_add]
    exact ⟨rfl, rfl⟩

end Raising

section Fitting

variable [IsStrictOrderedRing F] {results : List (Hit I F P)} {weight : F} {base : I → F}
  {order : List I}

theorem arm_fits_iff (distinct : (ids results).Nodup) (positive : 0 ≤ weight)
    (within : ∀ id ∈ ids results, id ∈ order) :
    Ordered results ∧ Keeps results weight base order ↔ ArmFits results weight base order := by
  unfold ArmFits
  split
  next negative =>
    constructor
    next =>
      rintro ⟨ordered, keeps⟩
      have same := same_of_ordered distinct negative ordered
      refine ⟨same, or_iff_not_imp_left.mpr fun heavy => ?_⟩
      have single := single_of_keeps distinct positive within heavy negative same keeps
      refine ⟨single, fun raised listed id known apart leads => ?_⟩
      have kept := keeps raised listed 0 (negative raised listed) id known apart leads
      obtain ⟨mine, others⟩ := raised_single weight base distinct negative single
        listed (negative raised listed)
      rw [if_pos rfl, zero_add] at mine
      exact (leads_congr mine (others id apart).2).mp kept
    next =>
      rintro ⟨same, light⟩
      refine ⟨fun low listed high listed' less => ?_,
        fun raised listed score higher id known apart leads => ?_⟩
      next => exact absurd (same low listed high listed') less.ne
      next =>
        rcases light with zero | ⟨single, stays⟩
        next =>
          have flat : ∀ arm : List (Hit I F P), total arm weight base = base := by
            intro arm
            funext id
            rw [total, zero, mul_zero, zero_add]
          rw [flat] at leads ⊢
          exact leads
        next =>
          obtain ⟨mine, others⟩ := raised_single weight base distinct negative
            single listed higher
          by_cases zero : score = 0
          next =>
            rw [if_pos zero, zero_add] at mine
            exact (leads_congr mine (others id apart).2).mpr (stays raised listed id known apart leads)
          next =>
            rw [if_neg zero] at mine
            have before := (total_same weight base distinct negative same listed).2
            exact (leads_congr (mine.trans before.symm)
              ((others id apart).2.trans (others id apart).1.symm)).mpr leads
  next mixed =>
    simp only [not_forall, not_lt] at mixed
    obtain ⟨result, listed, nonneg⟩ := mixed
    obtain ⟨top, peak⟩ := exists_peak listed
    have high : 0 ≤ top := nonneg.trans (peak.above result listed)
    constructor
    next => exact fun ⟨_, keeps⟩ => fits_of_keeps distinct positive within peak high keeps
    next =>
      exact fun fits => ⟨peak.ordered distinct high, keeps_of_fits distinct positive peak high fits⟩

end Fitting

end MemoryCloud.HybridSearch
