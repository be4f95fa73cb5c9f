import MemoryCloud.Dedup.Model

set_option autoImplicit false

namespace MemoryCloud.Dedup

section Judging

-- A judgment that names one member as both of the pair and as the winner.
def NamesItself (labels : Labels) (judgment : Json) (id : MemoryId) : Prop :=
  ∃ label pair, labels.lookup label = some id ∧
    judgment.lookup "verdict" = .ok (some (.str "merge")) ∧
    judgment.lookup "winner" = .ok (some (.str label)) ∧
    judgment.lookup "pair" = .ok (some pair) ∧ pair.pairItems = .ok (.str label, .str label)

theorem known_some {labels : Labels} {value : Json} {id : MemoryId}
    (found : known labels value = .ok (some id)) :
    ∃ label, value = .str label ∧ labels.lookup label = some id := by
  cases value with
  | str label => exact ⟨label, rfl, by simpa [known] using found⟩
  | _ => simp [known] at found

theorem bind_ok {α β : Type} {first : Parsed α} {next : α → Parsed β} {result : β}
    (done : (first >>= next) = .ok result) :
    ∃ value, first = .ok value ∧ next value = .ok result := by
  cases first with
  | error _ => cases done
  | ok value => exact ⟨value, rfl, done⟩

theorem isText_some {value : Option Json} {text : String} (is : isText value text = true) :
    value = some (.str text) := by
  unfold isText at is
  split at is
  next other => rw [of_decide_eq_true is]
  next => cases is

theorem readJudgment_some {labels : Labels} {judgment : Json} {decision : Decision}
    (read : readJudgment labels judgment = .ok (some decision)) :
    ∃ pair winnerLabel firstLabel secondLabel firstId secondId,
      judgment.lookup "verdict" = .ok (some (.str "merge")) ∧
      judgment.lookup "winner" = .ok (some (.str winnerLabel)) ∧
      judgment.lookup "pair" = .ok (some pair) ∧
      pair.pairItems = .ok (.str firstLabel, .str secondLabel) ∧
      labels.lookup firstLabel = some firstId ∧ labels.lookup secondLabel = some secondId ∧
      labels.lookup winnerLabel = some decision.1 ∧
      decision.2 = if secondLabel = winnerLabel then firstId else secondId := by
  unfold readJudgment at read
  obtain ⟨verdict, verdictFound, afterVerdict⟩ := bind_ok read
  cases isMerge : isText verdict "merge" with
  | false =>
    simp only [isMerge, Bool.not_false, if_true] at afterVerdict
    cases afterVerdict
  | true =>
    simp only [isMerge, Bool.not_true, Bool.false_eq_true, if_false] at afterVerdict
    rw [isText_some isMerge] at verdictFound
    obtain ⟨winner, winnerFound, afterWinner⟩ := bind_ok afterVerdict
    obtain ⟨pair, pairFound, afterPair⟩ := bind_ok afterWinner
    obtain ⟨length, lengthFound, afterLength⟩ := bind_ok afterPair
    by_cases two : length ≠ 2
    next =>
      rw [if_pos two] at afterLength
      cases afterLength
    next =>
      rw [if_neg two] at afterLength
      obtain ⟨⟨first, second⟩, itemsFound, afterItems⟩ := bind_ok afterLength
      obtain ⟨firstId, firstKnown, afterFirst⟩ := bind_ok afterItems
      cases firstId with
      | none => cases afterFirst
      | some firstId =>
        obtain ⟨secondId, secondKnown, afterSecond⟩ := bind_ok afterFirst
        cases secondId with
        | none => cases afterSecond
        | some secondId =>
          obtain ⟨winnerId, winnerKnown, answer⟩ := bind_ok afterSecond
          cases winnerId with
          | none => cases answer
          | some winnerId =>
            obtain ⟨firstLabel, rfl, firstListed⟩ := known_some firstKnown
            obtain ⟨secondLabel, rfl, secondListed⟩ := known_some secondKnown
            obtain ⟨label, isLabel, winnerListed⟩ := known_some winnerKnown
            rw [isLabel] at answer
            have same : (winnerId, if secondLabel = label then firstId else secondId) =
                decision := Option.some.inj (Except.ok.inj answer)
            have winnerText : winner = some (.str label) := by
              cases winner with
              | none => cases isLabel
              | some winner => exact congrArg some isLabel
            have pairGiven : ∃ given, pair = some given := by
              cases pair with
              | none =>
                have zero : 0 = length := Except.ok.inj lengthFound
                omega
              | some given => exact ⟨given, rfl⟩
            obtain ⟨given, rfl⟩ := pairGiven
            rw [winnerText] at winnerFound
            rw [← same]
            exact ⟨given, label, firstLabel, secondLabel, firstId, secondId, verdictFound,
              winnerFound, pairFound, itemsFound, firstListed, secondListed, winnerListed, rfl⟩

theorem lookup_injective {labels : List String} {ids : List MemoryId} (distinct : ids.Nodup)
    {left right : String} {id : MemoryId} (leftFound : (labels.zip ids).lookup left = some id)
    (rightFound : (labels.zip ids).lookup right = some id) : left = right := by
  induction labels generalizing ids with
  | nil => simp at leftFound
  | cons label rest ih =>
    cases ids with
    | nil => simp at leftFound
    | cons head tail =>
      have fresh : ∀ other, (rest.zip tail).lookup other ≠ some head := by
        intro other found
        obtain ⟨pre, post, split, _⟩ := List.lookup_eq_some_iff.mp found
        have listed : (other, head) ∈ rest.zip tail := by rw [split]; simp
        exact (List.nodup_cons.mp distinct).1 (List.of_mem_zip listed).2
      have deeper {other : String} (isOther : other ≠ label)
          (found : ((label :: rest).zip (head :: tail)).lookup other = some id) :
          (rest.zip tail).lookup other = some id := by
        have different : (other == label) = false := by simpa using isOther
        rwa [List.zip_cons_cons, List.lookup_cons, different] at found
      by_cases isLeft : left = label
      next =>
        have isHead : head = id := by simpa [isLeft] using leftFound
        by_cases isRight : right = label
        next => rw [isLeft, isRight]
        next => exact absurd (isHead ▸ deeper isRight rightFound) (fresh right)
      next =>
        have leftLater := deeper isLeft leftFound
        by_cases isRight : right = label
        next =>
          have isHead : head = id := by simpa [isRight] using rightFound
          exact absurd (isHead ▸ leftLater) (fresh left)
        next => exact ih (List.nodup_cons.mp distinct).2 leftLater (deeper isRight rightFound)

theorem lookup_member {cluster : Cluster} {label : String} {id : MemoryId}
    (found : cluster.labels.lookup label = some id) : id ∈ cluster.members.map (·.id) := by
  obtain ⟨pre, post, split, _⟩ := List.lookup_eq_some_iff.mp found
  have listed : (label, id) ∈ asciiUppercase.zip (cluster.members.map (·.id)) := by
    rw [← Cluster.labels, split]
    simp
  exact (List.of_mem_zip listed).2

theorem readJudgment_members {cluster : Cluster} {judgment : Json} {decision : Decision}
    (read : readJudgment cluster.labels judgment = .ok (some decision)) :
    decision.1 ∈ cluster.members.map (·.id) ∧ decision.2 ∈ cluster.members.map (·.id) := by
  obtain ⟨pair, winnerLabel, firstLabel, secondLabel, firstId, secondId, _, _, _, _, first, second,
    winner, loser⟩ := readJudgment_some read
  refine ⟨lookup_member winner, ?_⟩
  rw [loser]
  split
  next => exact lookup_member first
  next => exact lookup_member second

theorem readJudgment_self {cluster : Cluster} {judgment : Json} {decision : Decision}
    (read : readJudgment cluster.labels judgment = .ok (some decision))
    (self : decision.1 = decision.2) : NamesItself cluster.labels judgment decision.1 := by
  obtain ⟨pair, winnerLabel, firstLabel, secondLabel, firstId, secondId, verdict, winner, pairFound,
    items, first, second, winnerListed, loser⟩ := readJudgment_some read
  have injective {left right : String} {id : MemoryId}
      (leftFound : cluster.labels.lookup left = some id)
      (rightFound : cluster.labels.lookup right = some id) : left = right :=
    lookup_injective cluster.distinct leftFound rightFound
  by_cases same : secondLabel = winnerLabel
  next =>
    rw [if_pos same] at loser
    rw [← loser, ← self] at first
    have isFirst := injective first winnerListed
    rw [isFirst, same] at items
    exact ⟨winnerLabel, pair, winnerListed, verdict, winner, pairFound, items⟩
  next =>
    rw [if_neg same] at loser
    rw [← loser, ← self] at second
    exact absurd (injective second winnerListed) same

theorem collectJudgments_read {labels : Labels} {judgments : List Json}
    {seen : List (MemoryId × MemoryId)} {decisions result : List Decision}
    (done : collectJudgments labels judgments seen decisions = .ok result) :
    ∀ decision ∈ result, decision ∈ decisions ∨
      ∃ judgment ∈ judgments, readJudgment labels judgment = .ok (some decision) := by
  induction judgments generalizing seen decisions with
  | nil =>
    intro decision listed
    rw [collectJudgments] at done
    exact .inl (Except.ok.inj done ▸ listed)
  | cons judgment rest ih =>
    intro decision listed
    have further {seen : List (MemoryId × MemoryId)} {decisions : List Decision}
        (done : collectJudgments labels rest seen decisions = .ok result) :
        decision ∈ decisions ∨ ∃ other ∈ judgment :: rest,
          readJudgment labels other = .ok (some decision) := by
      cases ih done decision listed with
      | inl old => exact .inl old
      | inr later =>
        obtain ⟨other, present, read⟩ := later
        exact .inr ⟨other, by simp [present], read⟩
    rw [collectJudgments] at done
    obtain ⟨answer, read, done⟩ := bind_ok done
    cases answer with
    | none => exact further done
    | some made =>
      simp only at done
      split at done
      next => exact further done
      next =>
        obtain ⟨confidence, _, done⟩ := bind_ok done
        split at done
        next => cases done
        next =>
          cases further done with
          | inr later => exact .inr later
          | inl held =>
            cases List.mem_append.mp held with
            | inl old => exact .inl old
            | inr new =>
              rw [← List.mem_singleton.mp new] at read
              exact .inr ⟨judgment, by simp, read⟩

theorem enforceWinner_cases (cluster : List Memory) (decision : Decision) :
    enforceWinner cluster decision = decision ∨
      enforceWinner cluster decision = (decision.2, decision.1) := by
  unfold enforceWinner
  split
  next =>
    split
    next => exact .inr rfl
    next =>
      split
      next => exact .inr rfl
      next => exact .inl rfl
  next => exact .inl rfl

theorem ruleDecision_some {scores : Scores} {a b : Memory} {decision : Decision}
    (made : ruleDecision scores a b = some decision) :
    decision = (a.id, b.id) ∨ decision = (b.id, a.id) := by
  unfold ruleDecision at made
  split at made
  next =>
    split at made
    next => exact .inl (Option.some.inj made).symm
    next =>
      split at made
      next => exact .inr (Option.some.inj made).symm
      next =>
        split at made
        next => exact .inr (Option.some.inj made).symm
        next => exact .inl (Option.some.inj made).symm
  next => cases made

theorem ruleBasedJudge_members {members : List Memory} (distinct : (members.map (·.id)).Nodup)
    (scores : Scores) :
    ∀ decision ∈ ruleBasedJudge members scores, decision.1 ≠ decision.2 ∧
      decision.1 ∈ members.map (·.id) ∧ decision.2 ∈ members.map (·.id) := by
  induction members with
  | nil => simp [ruleBasedJudge]
  | cons memory rest ih =>
    intro decision listed
    rw [List.map_cons, List.nodup_cons] at distinct
    rw [ruleBasedJudge, List.mem_append] at listed
    cases listed with
    | inl here =>
      obtain ⟨other, present, made⟩ := List.mem_filterMap.mp here
      have isMember : other.id ∈ rest.map (·.id) := List.mem_map_of_mem present
      have different : memory.id ≠ other.id := fun same => distinct.1 (same ▸ isMember)
      have later : other.id ∈ (memory :: rest).map (·.id) := List.mem_cons_of_mem _ isMember
      cases ruleDecision_some made with
      | inl forward => rw [forward]; exact ⟨different, List.mem_cons_self, later⟩
      | inr backward => rw [backward]; exact ⟨different.symm, later, List.mem_cons_self⟩
    | inr deeper =>
      have found := ih distinct.2 decision deeper
      exact ⟨found.1, List.mem_cons_of_mem _ found.2.1, List.mem_cons_of_mem _ found.2.2⟩

theorem judgeCluster_llm {cluster : Cluster} {scores : Scores} {response : Json}
    {decision : Decision} (listed : decision ∈ judgeCluster cluster scores (.llm response)) :
    ∃ judgments, judgmentsOf response = .ok judgments ∧
      ∃ judgment ∈ judgments, ∃ made,
        readJudgment cluster.labels judgment = .ok (some made) ∧
        (decision = made ∨ decision = (made.2, made.1)) := by
  simp only [judgeCluster] at listed
  split at listed
  next decisions parsed =>
    obtain ⟨judgments, found, collected⟩ := bind_ok parsed
    obtain ⟨made, present, enforced⟩ := List.mem_map.mp listed
    cases collectJudgments_read collected made present with
    | inl none => cases none
    | inr read =>
      obtain ⟨judgment, among, read⟩ := read
      refine ⟨judgments, found, judgment, among, made, read, ?_⟩
      rw [← enforced]
      exact enforceWinner_cases cluster.members made
  next => cases listed

theorem judgeCluster_members {cluster : Cluster} {scores : Scores} {judge : Judge}
    {decision : Decision} (listed : decision ∈ judgeCluster cluster scores judge) :
    decision.1 ∈ cluster.members.map (·.id) ∧ decision.2 ∈ cluster.members.map (·.id) := by
  cases judge with
  | llm response =>
    obtain ⟨_, _, judgment, _, made, read, same⟩ := judgeCluster_llm listed
    have members := readJudgment_members read
    cases same with
    | inl kept => rw [kept]; exact members
    | inr flipped => rw [flipped]; exact members.symm
  | failed => cases listed
  | rules => exact (ruleBasedJudge_members cluster.distinct scores decision listed).2

end Judging

end MemoryCloud.Dedup
