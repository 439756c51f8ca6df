import TemplateGrammar.Proofs.Engine.ReadBack
import TemplateGrammar.Proofs.Expansion.Append
import TemplateGrammar.Proofs.Rules.Changes

/-!
# Loops and the frames they need

A loop is a condition whose block ends with the loop itself, so that every round is expanded inside
the one before: the frame of its condition and that of its block stay while the later rounds go on.
What is compared needs two more frames on top of those, one for the operand and one for the
candidate that is picked for it.

So a loop that compares what a rule gives with a text, and goes on for as many rounds as its picks
are of the first candidate, needs two frames for each of these rounds, three for the round that ends
it, and the root; with one frame less it is ended by the limit (`Direct.fst_node_loop`,
`tryExpand_loop`).
-/

namespace TemplateGrammar

variable {H : Type}

namespace Node

variable {σ : Type}

/-- `[while #name# == value do body]` -/
def loop (name value body : String) : Node σ :=
  .whileBlock ⟨[.ref name], .equal, [.text value]⟩ [.text body]

/-- The name, the value and the body, if the nodes are such a loop. -/
def loop? : List (Node Unit) → Option (String × String × String)
  | [.whileBlock ⟨[.rule name []], .equal, [.text value]⟩ [.text body]] => some (name, value, body)
  | _ => none

theorem eq_loop_of_loop? {nodes : List (Node Unit)} {name value body : String}
    (h : loop? nodes = some (name, value, body)) : nodes = [loop name value body] := by
  unfold loop? at h
  split at h
  · obtain ⟨rfl, rfl, rfl⟩ : _ ∧ _ ∧ _ := by simpa using h
    rfl
  · cases h

end Node

/-! ### Candidates that are texts -/

theorem Candidate.IsRead.nodes_eq {c : Candidate} (h : c.IsRead)
    (hplain : literal c.source = c.source) (hsome : c.source ≠ "") :
    c.nodes = [.text c.source] := by
  obtain ⟨nodes, hparse, hnodes⟩ := h
  have hliteral := parseText_literal c.source
  rw [hplain, if_neg hsome, hparse] at hliteral
  obtain rfl := Except.ok.inj hliteral
  obtain ⟨n, hn, herase⟩ := List.map_eq_singleton_iff.mp hnodes
  rw [hn]
  cases n with
  | text s =>
    obtain rfl : s = c.source := Node.text.inj herase
    rfl
  | _ => cases herase

theorem Rule.StandsFor.nodes_eq {rule : Rule H} {d : Definition H} (h : rule.StandsFor d)
    (hplain : ∀ source ∈ d.candidates, literal source = source ∧ source ≠ "") :
    rule.candidates.map Candidate.nodes = d.candidates.map fun source => [.text source] := by
  have hsources : rule.candidates.map Candidate.source = d.candidates := by
    refine h.sources.trans (List.filter_eq_self.mpr fun source hsource => ?_)
    have hliteral := parseText_literal source
    rw [(hplain source hsource).1] at hliteral
    rw [hliteral]
    rfl
  rw [← hsources, List.map_map]
  refine List.map_congr_left fun c hc => ?_
  obtain ⟨hliteral, hsome⟩ := hplain c.source (hsources ▸ List.mem_map_of_mem hc)
  exact (h.read c hc).nodes_eq hliteral hsome

/-! ### Names that give candidates -/

theorem TagStore.get?_eq_none_of_all {ts : TagStore H} (h : ts.All fun _ => False) (level : Nat)
    (name : String) : ts.get? level name = none :=
  Option.eq_none_iff_forall_not_mem.mpr (h level name)

/-- **A name stands for a rule whose selector is going to answer these indices,** as it is seen from
the first level. -/
structure World.Gives (s : Setting H) (name : String) (rule : Rule H) (indices : List Nat)
    (w : World H) : Prop where
  named : name ≠ ""
  noTag : w.tags.get? 1 name = none
  noObject : s.objects[name]? = none
  noRuntimeRule : w.runtime[name]? = none
  isRule : s.rules[name]? = some rule
  answers : rule.selector.answers rule.candidates.length indices.length w.chance = indices

namespace World.Gives

variable {s : Setting H} {name : String} {rule : Rule H} {indices : List Nat} {w : World H}

/-- What is looked at when a name is resolved has nothing to do with what is said, and stays on the
first level. -/
theorem of_eq {v : World H} (h : w.Gives s name rule indices)
    (htags : v.tags.get? 1 name = w.tags.get? 1 name) (hruntime : v.runtime = w.runtime)
    (hchance : v.chance = w.chance) : v.Gives s name rule indices :=
  ⟨h.named, htags.trans h.noTag, h.noObject, hruntime ▸ h.noRuntimeRule, h.isRule,
    hchance ▸ h.answers⟩

theorem say (h : w.Gives s name rule indices) (n : Notice) : (w.say n).Gives s name rule indices :=
  h.of_eq rfl rfl rfl

theorem leave (h : w.Gives s name rule indices) : (w.leave 1).Gives s name rule indices :=
  h.of_eq (TagStore.get?_leave_of_le _ (Nat.le_refl 1) _) rfl rfl

/-- **The next pick:** the candidate is the one with the next index, and the others are still to
come. -/
theorem resolve {i : Nat} (h : w.Gives s name rule (i :: indices)) {nodes : List (Node BagId)}
    (hnodes : (rule.candidates.map Candidate.nodes)[i]? = some nodes) :
    ∃ v, w.resolve s 1 name = (.nodes nodes true, v) ∧ v.Gives s name rule indices := by
  rw [List.getElem?_map, Option.map_eq_some_iff] at hnodes
  obtain ⟨c, hc, rfl⟩ := hnodes
  obtain ⟨hfirst, hmore⟩ := List.cons_eq_cons.mp h.answers
  refine ⟨(w.pick (.rule name) rule.selector rule.candidates.length).2, ?_, h.named,
    h.noTag, h.noObject, h.noRuntimeRule, h.isRule, hmore⟩
  have hpicked : rule.candidates[(w.pick (.rule name) rule.selector rule.candidates.length).1]? =
      some c :=
    (congrArg (rule.candidates[·]?) hfirst).trans hc
  unfold World.resolve World.resolveRule
  rw [if_neg h.named, h.noTag, h.noObject, h.noRuntimeRule, h.isRule]
  dsimp only
  rw [hpicked]

end World.Gives

namespace Direct

variable {s : Setting H} {name value : String} {rule : Rule H} {i : Nat}
    {indices : List Nat} {w : World H}

theorem fst_andThen_of_error {α β : Type} {x : Expanded α H} {f : α → World H → Expanded β H}
    {cause : ExpansionError} (h : x.1 = .error cause) : (andThen x f).1 = .error cause := by
  obtain ⟨result, w⟩ := x
  obtain rfl : result = .error cause := h
  rfl

/-- **An operand that asks for the rule** takes a frame, and one more for the candidate, which lies
a level deeper. -/
theorem enter_ref (hlevel : 2 ≤ s.maxLevel) (h : w.Gives s name rule (i :: indices))
    (htext : (rule.candidates.map Candidate.nodes)[i]? = some [.text value]) (free : Nat) :
    ∃ v, enter s (free + 2) 1 false (.nodes [.ref name] []) w = (.ok value, v) ∧
    v.Gives s name rule indices := by
  obtain ⟨v, hresolve, hv⟩ := h.resolve htext
  have hroom : ¬s.maxLevel < 1 + 1 := by omega
  refine ⟨v.leave 1, ?_, hv.leave⟩
  show andThen (andThen (node s (enter s (free + 1)) 1 (.rule name []) w) _) _ = _
  rw [node, hresolve]
  show andThen (andThen (enter s (free + 1) 1 true (.nodes [.text value] []) v) _) _ = _
  rw [enter, if_neg hroom]
  show (Except.ok (value ++ "" ++ ""), v.leave 1) = _
  rw [String.append_empty, String.append_empty]

/-- With one frame less there is none for the candidate. -/
theorem fst_enter_ref_of_lt (h : w.Gives s name rule (i :: indices))
    (htext : (rule.candidates.map Candidate.nodes)[i]? = some [.text value]) {free : Nat}
    (hfew : free < 2) :
    (enter s free 1 false (.nodes [.ref name] []) w).1 = .error (.frameLimit s.maxFrames) := by
  match free, hfew with
  | 0, _ => rfl
  | 1, _ =>
    obtain ⟨v, hresolve, -⟩ := h.resolve htext
    show (andThen (andThen (node s (enter s 0) 1 (.rule name []) w) _) _).1 = _
    rw [node, hresolve]
    rfl

/-- **The operands of a round,** where two frames are free for them. -/
theorem arguments_round (hlevel : 2 ≤ s.maxLevel) (h : w.Gives s name rule (i :: indices))
    (htext : (rule.candidates.map Candidate.nodes)[i]? = some [.text value]) (other : String)
    (free : Nat) :
    ∃ v, arguments (enter s (free + 2)) 1 [[.ref name], [.text other]] w = (.ok [value, other], v) ∧
      v.Gives s name rule indices := by
  obtain ⟨v, hfirst, hv⟩ := enter_ref hlevel h htext free
  refine ⟨v, ?_, hv⟩
  rw [arguments, hfirst]
  dsimp only [andThen]
  rw [arguments, enter_text]
  rfl

theorem fst_arguments_round_of_lt (h : w.Gives s name rule (i :: indices))
    (htext : (rule.candidates.map Candidate.nodes)[i]? = some [.text value])
    (other : String) {free : Nat} (hfew : free < 2) :
    (arguments (enter s free) 1 [[.ref name], [.text other]] w).1 =
      .error (.frameLimit s.maxFrames) := by
  rw [arguments]
  exact fst_andThen_of_error (fst_enter_ref_of_lt h htext hfew)

/-- **The frame of a round** needs itself and two more; then it goes on as the comparison says. -/
theorem enter_round (hlevel : 2 ≤ s.maxLevel) (h : w.Gives s name rule (i :: indices))
    (htext : (rule.candidates.map Candidate.nodes)[i]? = some [.text value]) (other : String)
    (yes : List (Node BagId)) (free : Nat) :
    ∃ v, enter s (free + 3) 1 false (.condition [[.ref name], [.text other]] .equal yes none) w =
        branch (enter s (free + 2)) 1 .equal yes none [value, other] v ∧
        v.Gives s name rule indices := by
  obtain ⟨v, hround, hv⟩ := arguments_round hlevel h htext other free
  refine ⟨v, ?_, hv⟩
  rw [enter, perform, hround]
  rfl

theorem fst_enter_round_of_lt (h : w.Gives s name rule (i :: indices))
    (htext : (rule.candidates.map Candidate.nodes)[i]? = some [.text value]) (other : String)
    (yes : List (Node BagId)) {free : Nat} (hfew : free < 3) :
    (enter s free 1 false (.condition [[.ref name], [.text other]] .equal yes none) w).1 =
      .error (.frameLimit s.maxFrames) := by
  cases free with
  | zero => rfl
  | succ free =>
    rw [enter, perform]
    exact fst_andThen_of_error (fst_arguments_round_of_lt h htext other
      (Nat.lt_of_succ_lt_succ hfew))

theorem fst_enter_text_node (free level : Nat) (text : String) (n : Node BagId) (w : World H) :
    (enter s (free + 1) level false (.nodes [.text text, n] []) w).1 =
      (node s (enter s free) level n w).1.map (text ++ ·) := by
  have hlist : nodeList s (enter s free) level [.text text, n] w =
      andThen (nodeList s (enter s free) level [n] w) fun more w => (.ok (text ++ more), w) := rfl
  rw [enter, perform_nodes, hlist, nodeList]
  rcases node s (enter s free) level n w with ⟨result, v⟩
  cases result with
  | error cause => rfl
  | ok more =>
    show Except.ok (text ++ (more ++ "")) = .ok (text ++ more)
    rw [String.append_empty]

/-- **A loop of so many rounds** is expanded where two frames are free for each of them and three
more; with fewer it is ended by the limit.  By the rounds, each of which leaves the frames of its
condition and of its block to the others. -/
theorem fst_node_loop {body last : String} {rounds : Nat} (hlevel : 2 ≤ s.maxLevel)
    (hcandidates : rule.candidates.map Candidate.nodes = [[.text value], [.text last]])
    (hlast : last ≠ value) (h : w.Gives s name rule (List.replicate rounds 0 ++ [1])) (free : Nat) :
    (node s (enter s free) 1 (.loop name value body) w).1 =
      if 2 * rounds + 3 ≤ free then .ok (String.join (List.replicate rounds body))
      else .error (.frameLimit s.maxFrames) := by
  have hstay : (rule.candidates.map Candidate.nodes)[0]? = some [.text value] := by
    rw [hcandidates]; rfl
  have hleave : (rule.candidates.map Candidate.nodes)[1]? = some [.text last] := by
    rw [hcandidates]; rfl
  let yes : List (Node BagId) := [.text body, .loop name value body]
  have hnode : ∀ free w, node s (enter s free) 1 (.loop name value body) w =
      enter s free 1 false (.condition [[.ref name], [.text value]] .equal yes none) w :=
      fun _ _ => rfl
  induction rounds generalizing w free with
  | zero =>
    rw [hnode]
    by_cases hfew : free < 3
    · rw [fst_enter_round_of_lt h hleave value yes hfew, if_neg (by omega)]
    · obtain ⟨more, rfl⟩ := Nat.exists_eq_add_of_le' (Nat.le_of_not_lt hfew)
      obtain ⟨v, hround, -⟩ := enter_round hlevel h hleave value yes more
      have hholds : Comparison.equal.holds? [last, value] = some false :=
        congrArg some (beq_eq_false_iff_ne.mpr hlast)
      rw [hround, branch, hholds, if_pos (by omega)]
      rfl
  | succ rounds ih =>
    rw [List.replicate_succ, List.cons_append] at h
    rw [hnode]
    by_cases hfew : free < 3
    · rw [fst_enter_round_of_lt h hstay value yes hfew, if_neg (by omega)]
    · obtain ⟨more, rfl⟩ := Nat.exists_eq_add_of_le' (Nat.le_of_not_lt hfew)
      obtain ⟨v, hround, hv⟩ := enter_round hlevel h hstay value yes more
      have hholds : Comparison.equal.holds? [value, value] = some true :=
        congrArg some (beq_self_eq_true value)
      have hrest := ih (hv.say .branchTaken) (more + 1)
      rw [hround, branch, hholds]
      show (enter s (more + 2) 1 false (.nodes yes []) (v.say .branchTaken)).1 = _
      rw [fst_enter_text_node, hrest, List.replicate_succ, String.join_cons]
      by_cases hroom : 2 * (rounds + 1) + 3 ≤ more + 3
      · rw [if_pos hroom, if_pos (by omega)]
        rfl
      · rw [if_neg hroom, if_neg (by omega)]
        rfl

/-- **At the root,** which is a frame, too. -/
theorem fst_expand_loop {body last : String} {rounds : Nat} (hlevel : 2 ≤ s.maxLevel)
    (hcandidates : rule.candidates.map Candidate.nodes = [[.text value], [.text last]])
    (hlast : last ≠ value) (h : w.Gives s name rule (List.replicate rounds 0 ++ [1])) :
    (expand s [.loop name value body] w).1 =
      if 2 * rounds + 4 ≤ s.maxFrames then .ok (String.join (List.replicate rounds body))
      else .error (.frameLimit s.maxFrames) := by
  cases hframes : s.maxFrames with
  | zero =>
    rw [expand, hframes]
    rfl
  | succ free =>
    have hnode : (node s (enter s free) 1 (.loop name value body) (w.leave 1)).1 = _ :=
      fst_node_loop hlevel hcandidates hlast h.leave free
    rw [expand_of_room hframes (by omega), perform_nodes, nodeList]
    rcases hx : node s (enter s free) 1 (.loop name value body) (w.leave 1) with ⟨result, v⟩
    rw [hx, hframes] at hnode
    obtain rfl : result = _ := hnode
    by_cases hroom : 2 * rounds + 3 ≤ free
    · rw [if_pos hroom, if_pos (by omega)]
      show Except.ok (_ ++ "") = _
      rw [String.append_empty]
    · rw [if_neg hroom, if_neg (by omega)]
      rfl

end Direct

namespace Engine

theorem fst_settled_eq_mapError (text : String) (x : Expanded String H) :
    (settled text x).1 = x.1.mapError .expansion := by
  obtain ⟨result, w⟩ := x
  cases result <;> rfl

theorem parseText_loop : parseText "[while #bit# == 0 do x]" = .ok [.loop "bit" "0" "x"] := by
  have hread : (parseText "[while #bit# == 0 do x]").toOption.bind Node.loop? =
      some ("bit", "0", "x") := by
    decide +kernel
  cases h : parseText "[while #bit# == 0 do x]" with
  | error failure =>
    rw [h] at hread
    cases hread
  | ok nodes =>
    rw [h] at hread
    rw [Node.eq_loop_of_loop? hread]

theorem takeUp_loop (w : World H) (name value body : String) :
    w.takeUp [.loop name value body] = ([.loop name value body], w) :=
  rfl

/-- **The budget of a loop.**  Let a rule have the candidates `0` and `1`, and let its selector
answer the first of them so many times, and then the other one.  A loop that goes on while the rule
gives `0` is expanded to its body as many times, if the engine may have two frames for each of them
and four more, and is ended by the limit of frames otherwise, whatever else the engine has, keeps,
and may do on two levels or more. -/
theorem tryExpand_loop {e : Engine H} {rule : Rule H} {keep : Bool} {rounds : Nat}
    (hlevel : 2 ≤ e.options.maxLevel) (hrule : e.rules.get? "bit" = some rule)
    (hcandidates : rule.StandsFor (.list ["0", "1"]))
    (hanswers : rule.selector.answers 2 (rounds + 1) (e.beginning keep).chance =
      List.replicate rounds 0 ++ [1])
    (hobject : e.objects["bit"]? = none)
    (hkept : keep = true → e.machine.world.tags.get? 1 "bit" = none ∧
      e.machine.world.runtime["bit"]? = none) :
    (e.tryExpand "[while #bit# == 0 do x]" keep).1 =
      if 2 * rounds + 4 ≤ e.options.maxFrames then .ok (String.join (List.replicate rounds "x"))
      else .error (.expansion (.frameLimit e.options.maxFrames)) := by
  have hplain : ∀ source ∈ ["0", "1"], literal source = source ∧ source ≠ "" := by decide
  have hnodes : rule.candidates.map Candidate.nodes = [[.text "0"], [.text "1"]] :=
    hcandidates.nodes_eq hplain
  have hcount : rule.candidates.length = 2 := by simpa using congrArg List.length hnodes
  have hshadowed : (e.beginning keep).tags.get? 1 "bit" = none ∧
      (e.beginning keep).runtime["bit"]? = none := by
    cases keep with
    | true => exact hkept rfl
    | false =>
      exact ⟨TagStore.get?_eq_none_of_all (TagStore.all_clear _ _) 1 "bit",
        Std.ExtTreeMap.getElem?_empty⟩
  have hgives : (e.beginning keep).Gives e.setting "bit" rule (List.replicate rounds 0 ++ [1]) := by
    refine ⟨by decide, hshadowed.1, hobject, hshadowed.2, hrule, ?_⟩
    rw [hcount, List.length_append, List.length_replicate]
    exact hanswers
  have hexpand : (Direct.expand e.setting [.loop "bit" "0" "x"] _).1 = _ :=
    Direct.fst_expand_loop hlevel hnodes (by decide) (hgives.say (.input "[while #bit# == 0 do x]"))
  rw [congrArg Prod.fst (e.outcome_call "[while #bit# == 0 do x]" keep),
    evaluated_of_parse e.setting parseText_loop,
    takeUp_loop, fst_settled_eq_mapError, hexpand]
  by_cases hroom : 2 * rounds + 4 ≤ e.options.maxFrames
  · rw [if_pos hroom]
    exact congrArg _ (if_pos hroom)
  · rw [if_neg hroom]
    exact congrArg _ (if_neg hroom)

/-! ### A countdown -/

/-- A selector of the host that answers the first candidate as often as the host remembers, and then
the second. -/
def countdown : Selector Nat :=
  .host fun _ random left => if left = 0 then (1, random, 0) else (0, random, left - 1)

theorem answers_countdown (count rounds : Nat) (c : Chance Nat) (hc : c.host = rounds) :
    countdown.answers count (rounds + 1) c = List.replicate rounds 0 ++ [1] := by
  induction rounds generalizing c with
  | zero =>
    obtain ⟨bags, random, host⟩ := c
    obtain rfl : host = 0 := hc
    rfl
  | succ rounds ih =>
    obtain ⟨bags, random, host⟩ := c
    obtain rfl : host = rounds + 1 := hc
    rw [List.replicate_succ, List.cons_append, ← ih ⟨bags, random, rounds⟩ rfl]
    rfl

/-- An engine with two levels and a countdown of three. -/
def countingThree (frames : Nat) : Engine Nat :=
  act (.start { tagScoping := .layered, maxLevel := 2, maxFrames := frames } (.ofSeed 0) 3)
    (.addRule "bit" (.provider ["0", "1"] (some countdown)))

theorem countingThree_gives (frames : Nat) (keep : Bool) :
    ∃ rule, (countingThree frames).rules.get? "bit" = some rule ∧
    rule.StandsFor (.list ["0", "1"]) ∧
      rule.selector.answers 2 (3 + 1) ((countingThree frames).beginning keep).chance =
        List.replicate 3 0 ++ [1] ∧
      (countingThree frames).machine.world.tags.get? 1 "bit" = none ∧
      (countingThree frames).machine.world.runtime["bit"]? = none := by
  let d : Definition Nat := .provider ["0", "1"] (some countdown)
  obtain ⟨ns, hworld⟩ : ∃ ns, (countingThree frames).machine.world =
      (World.start .layered (.ofSeed 0) 3).sayAll ns :=
    ⟨_, rfl⟩
  rw [World.sayAll_eq] at hworld
  have haccepts : RuleTable.accepts "bit" d = true := by decide +kernel
  rcases RuleTable.empty.add_cases "bit" d with ⟨hrefused, -⟩ | ⟨-, htable⟩
  · exact absurd (RuleTable.result_add_eq_ok.mpr haccepts) hrefused
  · refine ⟨RuleTable.empty.defined "bit" d, ?_, ?_, ?_, ?_, ?_⟩
    · show (RuleTable.empty.add "bit" d).table.get? "bit" = _
      rw [htable]
      exact Std.ExtTreeMap.getElem?_insert_self
    · have hstands : (RuleTable.empty.defined "bit" d).StandsFor d :=
        RuleTable.standsFor_defined _ (RuleTable.readable_ne_nil haccepts)
      exact ⟨hstands.candidate, hstands.sources, hstands.read⟩
    · refine answers_countdown 2 3 _ ?_
      cases keep with
      | true => exact congrArg (fun w => w.chance.host) hworld
      | false => exact congrArg (fun w => w.chance.host) hworld
    · rw [hworld]
      exact TagStore.get?_eq_none_of_all (TagStore.all_empty _ .layered) 1 "bit"
    · rw [hworld]
      exact Std.ExtTreeMap.getElem?_empty

/-- Ten frames are enough for the three rounds, and nine are not. -/
theorem tryExpand_countingThree :
    ((countingThree 10).tryExpand "[while #bit# == 0 do x]" false).1 = .ok "xxx" ∧
      ((countingThree 9).tryExpand "[while #bit# == 0 do x]" true).1 =
        .error (.expansion (.frameLimit 9)) := by
  obtain ⟨rule, hrule, hstands, hanswers, htag, hruntime⟩ := countingThree_gives 10 false
  obtain ⟨rule', hrule', hstands', hanswers', htag', hruntime'⟩ := countingThree_gives 9 true
  have hobjects : ∀ frames, (countingThree frames).objects["bit"]? = none :=
    fun frames => Std.ExtTreeMap.getElem?_empty
  have hoptions : ∀ frames, (countingThree frames).options =
      { tagScoping := .layered, maxLevel := 2, maxFrames := frames } := fun frames => by
    rw [countingThree, options_act]
    rfl
  have hlevel : ∀ frames, 2 ≤ (countingThree frames).options.maxLevel :=
    fun frames => by rw [hoptions]
  constructor
  · rw [tryExpand_loop (hlevel 10) hrule hstands hanswers (hobjects 10) nofun, hoptions]
    decide
  · rw [tryExpand_loop (hlevel 9) hrule' hstands' hanswers' (hobjects 9) fun _ =>
      ⟨htag', hruntime'⟩, hoptions]
    decide

end Engine

end TemplateGrammar
