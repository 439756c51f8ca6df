import TemplateGrammar.Proofs.Engine.NewBags
import TemplateGrammar.Proofs.Expansion.Limits
import TemplateGrammar.Proofs.Template.RoundTrip

/-!
# Tags give back what they are set to

A tag is set to some values and read as often as there are values.  Then each value is read once
(`tryExpand_readBack`): one value needs no choice, and several come out of a bag that was made for
the tag, which gives a whole round.

That holds of every name and of all values, since a character behind a backslash means nothing else,
and on every engine, since a tag is looked for before all that has the same name.  There must be
room for the root, the tag and a value of it, one inside the other, which is three frames on one
level.
-/

namespace TemplateGrammar

variable {H σ τ : Type}

/-! ### The template -/

/-- A text with a backslash before every character. -/
def escaped (s : String) : String :=
  String.ofList (Escape.everywhere s.toList)

/-- **A tag that is set to some values** is read as often as there are values. -/
def readBack (name : String) (values : List String) : String :=
  "[" ++ escaped name ++ ":" ++ ",".intercalate (values.map escaped) ++ "]" ++
    String.join (List.replicate values.length ("#" ++ escaped name ++ "#"))

example : readBack "t#" ["a", ","] = "[\\t\\#:\\a,\\,]#\\t\\###\\t\\##" := by decide

namespace Node

/-- The template as a tree. -/
def readBack (name : String) (values : List String) : List (Node σ) :=
  .tag name (values.map fun v => [.text v]) :: List.replicate values.length (.ref name)

theorem writtenValues_texts (values : List String) :
    writtenValues (values.map fun v => [(.text v : Node σ)]) =
      (",".intercalate (values.map escaped)).toList := by
  have hone : ∀ v : String, writtenList [(.text v : Node σ)] = (escaped v).toList := fun v =>
    (List.append_nil _).trans String.toList_ofList.symm
  cases values with
  | nil => rfl
  | cons v rest =>
    rw [List.map_cons, List.map_cons, writtenValues, hone]
    induction rest generalizing v with
    | nil =>
      exact (List.append_nil _).trans (congrArg String.toList String.intercalate_singleton.symm)
    | cons u rest ih =>
      rw [List.map_cons, List.map_cons, writtenMore, hone, ih u, String.intercalate_cons_cons,
        String.toList_append, String.toList_append, List.append_assoc]
      rfl

theorem writtenList_replicate (n : Node σ) (count : Nat) :
    writtenList (List.replicate count n) = (List.replicate count (written n)).flatten := by
  induction count with
  | zero => rfl
  | succ count ih =>
    rw [List.replicate_succ, writtenList, ih, List.replicate_succ, List.flatten_cons]

theorem template_readBack (name : String) (values : List String) :
    template (readBack name values : List (Node σ)) = TemplateGrammar.readBack name values := by
  have hname : writtenText name = (escaped name).toList := String.toList_ofList.symm
  have href : written (.ref name : Node σ) = ("#" ++ escaped name ++ "#").toList := by
    rw [ref, written_rule, hname, writtenChain, List.append_nil, String.toList_append,
      String.toList_append]
    rfl
  rw [← String.toList_inj, template, String.toList_ofList, readBack, writtenList,
    written_tag, hname, writtenValues_texts, writtenList_replicate, href, TemplateGrammar.readBack]
  simp [List.flatMap_replicate]

variable {name : String} {values : List String}

theorem mem_readBack {n : Node σ} (h : n ∈ readBack name values) :
    n = .tag name (values.map fun v => [.text v]) ∨ n = .ref name := by
  rcases List.mem_cons.mp h with rfl | h
  · exact .inl rfl
  · exact .inr (List.eq_of_mem_replicate h)

theorem part_readBack {n : Node σ} (h : n ∈ readBack name values) {part : List (Node σ)}
    (hp : part ∈ n.parts) : ∃ v ∈ values, part = [.text v] := by
  rcases mem_readBack h with rfl | rfl
  · obtain ⟨v, hv, rfl⟩ := List.mem_map.mp hp
    exact ⟨v, hv, rfl⟩
  · cases hp

/-- The template is legible if the name and the values are no empty texts, and there are values. -/
theorem legible_readBack (hname : name ≠ "") (hsome : values ≠ [])
    (hfilled : ∀ v ∈ values, v ≠ "") :
    Legible (readBack name values : List (Node σ)) := by
  have hnotext : ∀ n ∈ (readBack name values : List (Node σ)), n.isText = false := by
    intro n hn
    rcases mem_readBack hn with rfl | rfl <;> rfl
  refine .intro ⟨?_, ?_, ?_⟩ ?_
  · have hpairs : (readBack name values : List (Node σ)).Pairwise fun n m =>
        ¬(n.isText = true ∧ m.isText = true) :=
      List.pairwise_of_forall_mem_list fun n hn _ _ htexts => by
        rw [hnotext n hn] at htexts
        exact absurd htexts.1 (by decide)
    exact hpairs.isChain
  · intro n hn
    rcases mem_readBack hn with rfl | rfl
    · exact ⟨hname, by simpa using hsome⟩
    · exact ⟨hname, by simp⟩
  · intro n hn part hp
    obtain ⟨v, -, rfl⟩ := part_readBack hn hp
    exact List.cons_ne_nil _ _
  · intro n hn part hp
    obtain ⟨v, hv, rfl⟩ := part_readBack hn hp
    refine .intro ⟨List.isChain_singleton _, ?_, ?_⟩ ?_
    · intro m hm
      rw [List.mem_singleton.mp hm]
      exact hfilled v hv
    · intro m hm part hp
      rw [List.mem_singleton.mp hm] at hp
      cases hp
    · intro m hm part hp
      rw [List.mem_singleton.mp hm] at hp
      cases hp

theorem nestsWithin_readBack (name : String) (values : List String) :
    NestsWithin 1 (readBack name values : List (Node σ)) := by
  intro n hn part hp m hm
  obtain ⟨v, -, rfl⟩ := part_readBack hn hp
  rw [List.mem_singleton.mp hm]
  rfl

theorem placeList_readBack (f : Nat → τ) (k : Nat) (name : String) (values : List String) :
    placeList f k (readBack name values : List (Node σ)) = (readBack name values, k) := by
  have hvalues : ∀ values : List String, placeValues f k
      (values.map fun v => [(.text v : Node σ)]) =
      (values.map fun v => [.text v], k) := by
    intro values
    induction values with
    | nil => rfl
    | cons v rest ih =>
      rw [List.map_cons, placeValues, placeList, placeList, place, ih, List.map_cons]
  have hrefs : ∀ count, placeList f k (List.replicate count (.ref name : Node σ)) =
      (List.replicate count (.ref name), k) := by
    intro count
    induction count with
    | zero => rfl
    | succ count ih =>
      have href : place f k (.ref name : Node σ) = (.ref name, k) := rfl
      rw [List.replicate_succ, List.replicate_succ, placeList, href, ih]
  rw [readBack, placeList, place, hvalues, hrefs]
  rfl

end Node

theorem parseText_readBack {name : String} {values : List String} (hname : name ≠ "")
    (hsome : values ≠ []) (hfilled : ∀ v ∈ values, v ≠ "") :
    parseText (readBack name values) = .ok (Node.readBack name values) := by
  have hlegible : Node.Legible (Node.readBack name values : List (Node Unit)) :=
    Node.legible_readBack hname hsome hfilled
  have hnests := (Node.nestsWithin_readBack (σ := Unit) name values).mono
    (show 1 ≤ maxNesting by decide)
  rw [← Node.template_readBack (σ := Unit), parseText, Node.tokenize_template hlegible,
    parse_listTokens hlegible hnests]

/-! ### The picks -/

namespace Selector

/-- The answers to so many picks, one after another, about a number of candidates. -/
def answers (s : Selector H) (count : Nat) : Nat → Chance H → List Nat
  | 0, _ => []
  | picks + 1, c => (s.pick count c).1 :: s.answers count picks (s.pick count c).2

theorem length_answers (s : Selector H) (count picks : Nat) (c : Chance H) :
    (s.answers count picks c).length = picks := by
  induction picks generalizing c with
  | zero => rfl
  | succ picks ih => rw [answers, List.length_cons, ih]

theorem answers_bag (id : BagId) (count picks : Nat) (c : Chance H) :
    (bag id).answers count picks c = answersOf id (List.replicate picks (bag id, count)) c := by
  induction picks generalizing c with
  | zero => rfl
  | succ picks ih =>
    have hown : (bag id : Selector H).bag? = some id := rfl
    rw [answers, List.replicate_succ, answersOf, if_pos hown, ih]

/-- **As many picks as there are values** come to each of them once, by default, if none has a
weight and no one has picked from the bag. -/
theorem perm_answers_default {values : List (Value σ)} {id : BagId} {c : Chance H}
    (hsome : values ≠ []) (hweight : ∀ v ∈ values, v.hasWeight = false)
    (hc : c.bags.get id = Bag.empty) :
    ((default values id : Selector H).answers values.length values.length c).Perm
      (List.range values.length) := by
  by_cases hone : values.length = 1
  · rw [default, if_pos hone, hone]
    exact List.Perm.refl _
  · have hpos : 0 < values.length := List.length_pos_of_ne_nil hsome
    rw [default_eq_bag id (by omega) hweight, answers_bag]
    have hrounds : Rounds values.length (answersOf id
        (List.replicate values.length (bag id, values.length)) c) := by
      refine rounds_answersOf (fun a ha _ => ?_) hc
      rw [List.eq_of_mem_replicate ha]
    have hlength : (answersOf id (List.replicate values.length (bag id, values.length)) c).length =
        values.length := by
      rw [← answers_bag, length_answers]
    -- all of them are the first round
    have hround := hrounds 0 (by omega)
    rwa [Nat.zero_mul, List.drop_zero, List.take_of_length_le (Nat.le_of_eq hlength)] at hround

theorem exists_perm_of_indices {α : Type} {values : List α} {indices : List Nat}
    (h : indices.Perm (List.range values.length)) :
    ∃ texts : List α, texts.Perm values ∧ indices.map (values[·]?) = texts.map some := by
  have hall : ∀ i ∈ List.range values.length, i < values.length := fun i hi => List.mem_range.mp hi
  have hless : ∀ i ∈ indices, i < values.length := fun i hi => hall i (h.mem_iff.mp hi)
  have hvalues : (List.range values.length).pmap (fun i hi => values[i]) hall = values :=
    List.ext_getElem (by simp) (by simp)
  have hperm : (indices.pmap (fun i hi => values[i]) hless).Perm
      ((List.range values.length).pmap (fun i hi => values[i]) hall) := h.pmap _
  refine ⟨indices.pmap (fun i hi => values[i]) hless, hvalues ▸ hperm, ?_⟩
  rw [List.map_pmap, ← List.pmap_eq_map hless]
  exact List.pmap_congr_left _ fun i _ hi _ => List.getElem?_eq_getElem hi

theorem exists_perm_answers_texts {values : List String} {id : BagId} {c : Chance H}
    (hsome : values ≠ []) (hc : c.bags.get id = Bag.empty) :
    ∃ texts : List String, texts.Perm values ∧
      ((default (values.map fun v => [(.text v : Node σ)]) id : Selector H).answers values.length
        values.length c).map (values[·]?) = texts.map some := by
  have hnone : (values.map fun v => [(.text v : Node σ)]) ≠ [] := by simpa using hsome
  have hweight : ∀ v ∈ values.map fun v => [(.text v : Node σ)], Value.hasWeight v = false := by
    simp [Value.hasWeight]
  have hperm := perm_answers_default hnone hweight hc
  rw [List.length_map] at hperm
  exact exists_perm_of_indices hperm

end Selector

/-! ### The expansion -/

namespace Direct

variable {s : Setting H} {w : World H}

theorem enter_text (free level : Nat) (text : String) (w : World H) :
    enter s (free + 1) level false (.nodes [.text text] []) w = (.ok text, w) := by
  show (Except.ok (text ++ ""), w) = _
  rw [String.append_empty]

theorem arguments_texts (free level : Nat) (values : List String) (w : World H) :
    arguments (enter s (free + 1)) level (values.map fun v => [.text v]) w = (.ok values, w) := by
  induction values with
  | nil => rfl
  | cons v rest ih =>
    rw [List.map_cons, arguments, enter_text]
    dsimp only [andThen]
    rw [ih]

/-- **A tag that is set to texts** has them as its values, and a new bag. -/
theorem node_tag_texts (free level : Nat) (name : String) (values : List String) (w : World H) :
    node s (enter s (free + 2)) level (.tag name (values.map fun v => [.text v])) w =
      (.ok "", w.freshBag.2.setTag level name values
        (.default (values.map fun v => [(.text v : Node BagId)]) (.fresh w.issued))) := by
  show andThen (arguments (enter s (free + 1)) level _ w.freshBag.2) _ = _
  rw [arguments_texts]
  rfl

/-- **A tag that is read** gives the value that is picked. -/
theorem node_ref_tag {level : Nat} {name : String} (hname : name ≠ "") {tag : Tag H}
    (htag : w.tags.get? level name = some tag) {text : String}
    (htext : tag.values[(tag.selector.pick tag.values.length w.chance).1]? = some text)
    (free : Nat) :
    node s (enter s (free + 1)) level (.ref name) w =
      (.ok text, (w.pick (.tag name) tag.selector tag.values.length).2.say
        (.tagRead name text)) := by
  have hresolve : w.resolve s level name = (.nodes [.text text] false,
      (w.pick (.tag name) tag.selector tag.values.length).2.say (.tagRead name text)) := by
    have hpicked : tag.values[(w.pick (.tag name) tag.selector tag.values.length).1]? = some text :=
      htext
    unfold World.resolve
    rw [if_neg hname, htag]
    dsimp only
    rw [hpicked]
  rw [Node.ref, node, hresolve]
  exact enter_text free level text _

/-- **A tag that is read time after time** gives what is picked, one after another. -/
theorem nodeList_refs {level : Nat} {name : String} (hname : name ≠ "") {tag : Tag H}
    (htag : w.tags.get? level name = some tag) {texts : List String}
    (htexts : (tag.selector.answers tag.values.length texts.length w.chance).map (tag.values[·]?) =
      texts.map some)
    (free : Nat) :
    (nodeList s (enter s (free + 1)) level (List.replicate texts.length (.ref name)) w).1 =
      .ok (String.join texts) := by
  induction texts generalizing w with
  | nil => rfl
  | cons text rest ih =>
    obtain ⟨hfirst, hmore⟩ := List.cons_eq_cons.mp htexts
    have hrest := @ih ((w.pick (.tag name) tag.selector tag.values.length).2.say
      (.tagRead name text)) htag hmore
    rw [List.length_cons, List.replicate_succ, nodeList, node_ref_tag hname htag hfirst,
      String.join_cons]
    dsimp only [andThen]
    rcases hx : nodeList s (enter s (free + 1)) level (List.replicate rest.length (.ref name))
      ((w.pick (.tag name) tag.selector tag.values.length).2.say (.tagRead name text)) with ⟨result,
        w'⟩
    rw [hx] at hrest
    obtain rfl : result = .ok (String.join rest) := hrest
    rfl

/-- **The template is expanded** to the values in some order, if no one has picked from the bag that
is next. -/
theorem expand_readBack {name : String} {values : List String} (hname : name ≠ "")
    (hsome : values ≠ []) (hlevel : 1 ≤ s.maxLevel) (hframes : 3 ≤ s.maxFrames)
    (hbag : w.chance.bags.get (.fresh w.issued) = Bag.empty) :
    ∃ texts : List String, texts.Perm values ∧
      (expand s (Node.readBack name values) w).1 = .ok (String.join texts) := by
  obtain ⟨free, hfree⟩ := Nat.exists_eq_add_of_le' hframes
  let nodes : List (Value BagId) := values.map fun v => [.text v]
  let tag : Tag H := ⟨values, .default nodes (.fresh w.issued)⟩
  let w₁ := (w.leave 1).freshBag.2.setTag 1 name values tag.selector
  have hset : node s (enter s (free + 2)) 1 (.tag name nodes) (w.leave 1) = (.ok "", w₁) :=
    node_tag_texts free 1 name values (w.leave 1)
  have htag : w₁.tags.get? 1 name = some tag := by
    rw [World.tags_setTag, TagStore.get?_store_self, if_pos rfl]
  have hnew : w₁.chance.bags.get (.fresh w.issued) = Bag.empty := by
    rw [World.chance_setTag]
    exact hbag
  obtain ⟨texts, hperm, htexts⟩ := Selector.exists_perm_answers_texts hsome hnew
  have hreads : (nodeList s (enter s (free + 2)) 1 (List.replicate texts.length (.ref name)) w₁).1 =
      .ok (String.join texts) := by
    refine nodeList_refs hname htag ?_ (free + 1)
    rw [hperm.length_eq]
    exact htexts
  refine ⟨texts, hperm, ?_⟩
  rw [hperm.length_eq] at hreads
  rcases hx : nodeList s (enter s (free + 2)) 1 (List.replicate values.length (.ref name)) w₁
    with ⟨result, w₂⟩
  rw [hx] at hreads
  obtain rfl : result = .ok (String.join texts) := hreads
  rw [expand_of_room hfree (by omega), perform, Node.readBack, nodeList, hset]
  dsimp only [andThen]
  rw [hx]
  exact congrArg Except.ok (String.empty_append)

end Direct

/-! ### The call -/

theorem World.takeUp_readBack (w : World H) (name : String) (values : List String) :
    w.takeUp (Node.readBack name values) = (Node.readBack name values, w) := by
  unfold takeUp
  rw [Node.placeList_readBack]

namespace Engine

theorem fst_settled {text out : String} {x : Expanded String H} (h : x.1 = .ok out) :
    (settled text x).1 = .ok out := by
  obtain ⟨result, w⟩ := x
  obtain rfl : result = .ok out := h
  rfl

/-- **A tag gives back what it is set to.**  A tag that has a name is set to some texts, none of
them empty, and read as often as there are texts, with a backslash before every character of the
name and of the texts.  Every engine that has a level and three frames expands that to the texts,
each of them once, in some order: whatever its rules, objects, modifiers, tags and rules of the run
are, and whether these are kept or forgotten. -/
theorem tryExpand_readBack {name : String} {values : List String} (hname : name ≠ "")
    (hsome : values ≠ []) (hfilled : ∀ v ∈ values, v ≠ "") {e : Engine H} {keep : Bool}
    (he : keep = true → Hosted e) (hlevel : 1 ≤ e.options.maxLevel)
    (hframes : 3 ≤ e.options.maxFrames) :
    ∃ texts : List String, texts.Perm values ∧
      (e.tryExpand (readBack name values) keep).1 = .ok (String.join texts) := by
  have hbag : (e.beginning keep).chance.bags.get (.fresh (e.beginning keep).issued) = Bag.empty :=
    (supplied_beginning fun hkeep => supplied_of_hosted (he hkeep)).unpicked _ (Nat.le_refl _)
  obtain ⟨texts, hperm, hexpand⟩ := Direct.expand_readBack (s := e.setting)
    (w := (e.beginning keep).say (.input (readBack name values))) hname hsome hlevel hframes hbag
  refine ⟨texts, hperm, ?_⟩
  rw [congrArg Prod.fst (e.outcome_call (readBack name values) keep),
    evaluated_of_parse e.setting (parseText_readBack hname hsome hfilled), World.takeUp_readBack]
  exact fst_settled hexpand

/-- An engine with a level and three frames, and a rule. -/
def threeFrames : Engine Unit :=
  act (.start { tagScoping := .layered, maxLevel := 1, maxFrames := 3 } (.ofSeed 0) ())
    (.addRule "r" (.list ["x", "y"]))

/-- It has kept a rule of the run and a tag of the same name, whose bag has two values left out of
three. -/
def readOnce : Engine Unit :=
  threeFrames.act (.expand "#r\\#(x,y)#[r\\#:p,q,s]#r\\##" true)

theorem tryExpand_hashName : "r#" ≠ "" ∧ ["a,b", "]", "a,b"] ≠ [] ∧
    (∀ v ∈ ["a,b", "]", "a,b"], v ≠ "") ∧
    (true = true → Hosted readOnce) ∧ 1 ≤ readOnce.options.maxLevel ∧
    3 ≤ readOnce.options.maxFrames ∧
    ∃ texts : List String, texts.Perm ["a,b", "]", "a,b"] ∧
      (readOnce.tryExpand (readBack "r#" ["a,b", "]", "a,b"]) true).1 =
        .ok (String.join texts) := by
  have hthree : Hosted threeFrames := .act (.start _ _ _) _ fun s hs => by cases hs
  have hhosted : Hosted readOnce := .act hthree _ fun s hs => by cases hs
  have hoptions : readOnce.options = { tagScoping := .layered, maxLevel := 1, maxFrames := 3 } := by
    rw [readOnce, options_act, threeFrames, options_act]
    rfl
  have hlevel : 1 ≤ readOnce.options.maxLevel := by rw [hoptions]
  have hframes : 3 ≤ readOnce.options.maxFrames := by rw [hoptions]
  exact ⟨by decide, by decide, by decide, fun _ => hhosted, hlevel, hframes,
    tryExpand_readBack (by decide) (by decide) (by decide) (fun _ => hhosted) hlevel hframes⟩

end Engine

end TemplateGrammar
