import TemplateGrammar.Proofs.Engine.History

/-!
# Who listens makes no difference

An engine gives notices, and its level lets some of them through to whoever listens.  A host makes
an engine from a plan, asks it one thing after another (`Engine.Request`), and after each takes the
answer and hears the messages that the level of the engine lets through; all this is the transcript
of the session (`Plan.session`).

Nothing that is done with an engine looks at its level (`Engine.respond_atLevel`,
`Plan.build_atLevel`), so the notices are the same at each level.  What a quieter level lets through
of them is what it lets through of the messages that a louder one has let through
(`LogLevel.sift_heard`).  Hence two sessions that differ in the level have the same answers, and the
messages of the quieter are those of the louder that its level lets through
(`Plan.session_atLevel`).
-/

namespace TemplateGrammar

variable {H : Type}

namespace LogLevel

/-- The messages that a level lets through, in order. -/
def sift (listener : LogLevel) (messages : List (Severity × String)) : List (Severity × String) :=
  messages.filter fun m => listener.hears m.1.level

/-- **What is heard behind a louder listener** is what would have been heard without. -/
theorem sift_heard {quiet loud : LogLevel} (h : quiet.rank ≤ loud.rank) (notices : List Notice) :
    quiet.sift (loud.heard notices) = quiet.heard notices := by
  have hboth : ∀ n : Notice, (quiet.hears n.severity.level && loud.hears n.severity.level) =
      quiet.hears n.severity.level := by
    intro n
    cases hq : quiet.hears n.severity.level with
    | false => rfl
    | true => rw [hears_mono h hq, Bool.and_true]
  have hfilter : (notices.filter fun n => loud.hears n.severity.level).filter
      (fun n => quiet.hears n.severity.level) =
      notices.filter fun n => quiet.hears n.severity.level := by
    rw [List.filter_filter]
    exact List.filter_congr fun n _ => hboth n
  rw [sift, heard, List.filter_map, heard, ← hfilter]
  rfl

end LogLevel

namespace Engine

/-! ### Sessions -/

/-- **What a host asks an engine for:** to have something done with it, an expansion as a text and
nothing else, or what is found in its rules. -/
inductive Request (H : Type) where
  | act (a : Act H)
  | expand (text : String) (keep : Bool)
  | inspect

/-- **What is answered, and the engine after it.** -/
def respond (e : Engine H) : Request H → Response × Engine H
  | .act a => e.answer a
  | .expand text keep => (e.expand text keep).map .text id
  | .inspect => (.findings e.inspect, e)

/-- The messages since they were last heard, as many as the level of the engine lets through. -/
def messages (e : Engine H) : List (Severity × String) :=
  e.options.logLevel.heard e.takeNotices.1

/-- The answers to one request after another, each with the messages that come with it. -/
def replies (e : Engine H) : List (Request H) → List (Response × List (Severity × String))
  | [] => []
  | request :: more =>
    ((e.respond request).1, (e.respond request).2.messages) ::
      (e.respond request).2.takeNotices.2.replies more

end Engine

/-- All that a host learns from a session. -/
structure Transcript where
  made : Except FileFault Unit
  messages : List (Severity × String)
  replies : List (Engine.Response × List (Severity × String))

/-- What of a transcript is there at a quieter level: all answers, and the messages that it lets
through. -/
def Transcript.sifted (t : Transcript) (listener : LogLevel) : Transcript :=
  { t with
    messages := listener.sift t.messages
    replies := t.replies.map fun r => (r.1, listener.sift r.2) }

/-- **Make an engine and ask it one thing after another.**  If it cannot be made, nothing can be
asked. -/
def Plan.session (p : Plan H) (files : FileTree) (entropy : UInt64) (host : H)
    (requests : List (Engine.Request H)) :
    Transcript :=
  match p.build files entropy host with
  | (.error fault, e) => ⟨.error fault, e.messages, []⟩
  | (.ok (), e) => ⟨.ok (), e.messages, e.takeNotices.2.replies requests⟩

/-! ### Levels -/

/-- The options with another level. -/
def Options.atLevel (o : Options) (level : LogLevel) : Options :=
  { o with logLevel := level }

/-- The plan of an engine with another level. -/
def Plan.atLevel (p : Plan H) (level : LogLevel) : Plan H :=
  { p with options := p.options.atLevel level }

namespace Engine

/-- The engine with another level. -/
def atLevel (e : Engine H) (level : LogLevel) : Engine H :=
  { e with options := e.options.atLevel level }

variable (e : Engine H) (level : LogLevel)

theorem sayAll_atLevel (notices : List Notice) :
    (e.atLevel level).sayAll notices = (e.sayAll notices).atLevel level :=
  rfl

theorem run_atLevel (text : String) (nodes : List (Node Unit)) :
    (e.atLevel level).run text nodes = (e.run text nodes).map id (atLevel · level) := by
  unfold run
  dsimp only
  rw [show (e.atLevel level).setting = e.setting from rfl,
    show (e.atLevel level).machine = e.machine from rfl]
  split <;> rfl

theorem tryExpand_atLevel (text : String) (keep : Bool) :
    (e.atLevel level).tryExpand text keep = (e.tryExpand text keep).map id (atLevel · level) := by
  have hkept : ∀ e : Engine H, (e.atLevel level).tryExpand text true =
      (e.tryExpand text true).map id (atLevel · level) := by
    intro e
    unfold tryExpand
    cases parseText text with
    | error failure => rfl
    | ok nodes => exact run_atLevel (e.sayAll [.input text]) level text nodes
  cases keep with
  | true => exact hkept e
  | false => exact hkept (e.onWorld World.forget)

theorem answer_atLevel (a : Act H) :
    (e.atLevel level).answer a = (e.answer a).map id (atLevel · level) := by
  cases a with
  | expand text keep =>
    dsimp only [answer]
    rw [tryExpand_atLevel]
    rfl
  | setSelector name s =>
    dsimp only [answer, setSelector]
    rw [show (e.atLevel level).rules = e.rules from rfl]
    cases e.rules.setSelector name s <;> rfl
  | _ => rfl

/-- **Nothing that is asked for looks at the level.** -/
theorem respond_atLevel (request : Request H) :
    (e.atLevel level).respond request = (e.respond request).map id (atLevel · level) := by
  cases request with
  | act a => exact e.answer_atLevel level a
  | expand text keep =>
    dsimp only [respond, expand]
    rw [tryExpand_atLevel]
    rfl
  | inspect => rfl

theorem messages_atLevel : (e.atLevel level).messages = level.heard e.takeNotices.1 :=
  rfl

/-- **The replies at a quieter level,** by induction on the requests: the notices are the same. -/
theorem replies_atLevel {quiet loud : LogLevel} (h : quiet.rank ≤ loud.rank)
    (requests : List (Request H)) : (e.atLevel quiet).replies requests =
      ((e.atLevel loud).replies requests).map fun r => (r.1, quiet.sift r.2) := by
  induction requests generalizing e with
  | nil => rfl
  | cons request more ih =>
    have hmore := ih (e.respond request).2.takeNotices.2
    rw [replies, replies, respond_atLevel, respond_atLevel, List.map_cons]
    dsimp only [Prod.map]
    rw [messages_atLevel, messages_atLevel, LogLevel.sift_heard h]
    exact congrArg (List.cons _) hmore

/-! ### Making an engine -/

theorem foldl_atLevel {α : Type} {f : Engine H → α → Engine H}
    (hf : ∀ e a, f (atLevel e level) a = (f e a).atLevel level) (as : List α) :
    as.foldl f (e.atLevel level) = (as.foldl f e).atLevel level := by
  induction as generalizing e with
  | nil => rfl
  | cons a as ih => rw [List.foldl_cons, List.foldl_cons, hf, ih]

theorem loadFiles_atLevel (files : FileTree) (paths : List String) :
    loadFiles files paths (e.atLevel level) =
      (loadFiles files paths e).map id (atLevel · level) := by
  induction paths generalizing e with
  | nil => rfl
  | cons path rest ih =>
    unfold loadFiles
    split
    · rfl
    · rw [sayAll_atLevel, addEntries, foldl_atLevel _ _ fun _ _ => rfl]
      exact ih _

end Engine

/-- What is done to make an engine when its files have been loaded. -/
def Plan.furnish (p : Plan H) (e : Engine H) : Engine H :=
  let e := p.rules.foldl Engine.offerRule e
  let e := if p.standardModifiers then e.addStandardModifiers else e
  if p.options.inspectRules then e.sayFindings else e

theorem Plan.build_eq (p : Plan H) (files : FileTree) (entropy : UInt64) (host : H) :
    p.build files entropy host =
      match Engine.loadFiles files p.files
        (.start p.options (.ofSeed (p.options.seed.getD entropy)) host) with
      | (.error fault, e) => (.error fault, e)
      | (.ok _, e) => (.ok (), p.furnish e) :=
  rfl

theorem Plan.furnish_atLevel (p : Plan H) (e : Engine H) (level : LogLevel) :
    (p.atLevel level).furnish (e.atLevel level) = (p.furnish e).atLevel level := by
  have hrules : p.rules.foldl Engine.offerRule (e.atLevel level) =
      (p.rules.foldl Engine.offerRule e).atLevel level :=
    e.foldl_atLevel level (fun _ _ => rfl) p.rules
  have hmodifiers : ∀ e : Engine H, (e.atLevel level).addStandardModifiers =
      e.addStandardModifiers.atLevel level :=
    fun e => e.foldl_atLevel level (fun _ _ => rfl) English.modifiers
  have hif : ∀ (b : Bool) (e f : Engine H), (if b then e.atLevel level else f.atLevel level) =
      (if b then e else f).atLevel level := fun b e f => by cases b <;> rfl
  have hfindings : ∀ e : Engine H, (e.atLevel level).sayFindings = e.sayFindings.atLevel level :=
    fun _ => rfl
  show (if p.options.inspectRules then
      (if p.standardModifiers then (p.rules.foldl Engine.offerRule
        (e.atLevel level)).addStandardModifiers
        else p.rules.foldl Engine.offerRule (e.atLevel level)).sayFindings
    else if p.standardModifiers then (p.rules.foldl Engine.offerRule
      (e.atLevel level)).addStandardModifiers
      else p.rules.foldl Engine.offerRule (e.atLevel level)) = _
  rw [hrules, hmodifiers, hif, hfindings, hif]
  rfl

/-- **Making an engine does not look at the level.** -/
theorem Plan.build_atLevel (p : Plan H) (level : LogLevel) (files : FileTree)
    (entropy : UInt64) (host : H) : (p.atLevel level).build files entropy host =
      (p.build files entropy host).map id (Engine.atLevel · level) := by
  have hload := Engine.loadFiles_atLevel
    (.start p.options (.ofSeed (p.options.seed.getD entropy)) host) level files p.files
  rw [build_eq, build_eq]
  change Engine.loadFiles files (p.atLevel level).files
    (.start (p.atLevel level).options (.ofSeed ((p.atLevel level).options.seed.getD entropy))
      host) = _ at hload
  rw [hload]
  cases Engine.loadFiles files p.files (.start p.options
    (.ofSeed (p.options.seed.getD entropy)) host) with
  | mk result e =>
    cases result with
    | error fault => rfl
    | ok _ => exact congrArg (Prod.mk _) (p.furnish_atLevel e level)

/-- **Logging never influences results.**  Of two sessions that differ in nothing but the level of
the engine, the one at the quieter level has the same answers as the other, and of the messages of
the other those that its level lets through. -/
theorem Plan.session_atLevel (p : Plan H) {quiet loud : LogLevel} (h : quiet.rank ≤ loud.rank)
    (files : FileTree) (entropy : UInt64) (host : H) (requests : List (Engine.Request H)) :
    (p.atLevel quiet).session files entropy host requests =
      ((p.atLevel loud).session files entropy host requests).sifted quiet := by
  unfold session
  rw [build_atLevel, build_atLevel]
  obtain ⟨result, e⟩ := p.build files entropy host
  cases result with
  | error fault =>
    dsimp only [Prod.map, id, Transcript.sifted]
    rw [Engine.messages_atLevel, Engine.messages_atLevel, LogLevel.sift_heard h]
    rfl
  | ok _ =>
    have hreplies := e.takeNotices.2.replies_atLevel h requests
    dsimp only [Prod.map, id, Transcript.sifted]
    rw [Engine.messages_atLevel, Engine.messages_atLevel, LogLevel.sift_heard h]
    exact congrArg (Transcript.mk _ _) hreplies

/-- A plan with a text that is no template, and a rule that is defined again. -/
def chattyPlan : Plan Unit :=
  { options := { seed := some 7, inspectRules := false },
    rules := [("r", .list ["a", "[b"]), ("r", .text "#s#")] }

/-- Requests of which one names a rule that is not there, and one expands to a reference that is
left as written. -/
def chattyRequests : List (Engine.Request Unit) :=
  [.act (.setSelector "q" .first), .act (.expand "[t:x]#r#" true), .inspect, .expand "[" false]

/-- The louder session says more, and the quieter just the errors of it. -/
theorem session_chattyPlan :
    LogLevel.errors.rank ≤ LogLevel.verbose.rank ∧
      (chattyPlan.atLevel .errors).session .empty 0 () chattyRequests =
        ((chattyPlan.atLevel .verbose).session .empty 0 () chattyRequests).sifted .errors ∧
      ((chattyPlan.atLevel .verbose).session .empty 0 () chattyRequests).messages.map Prod.fst =
        [.error, .trace, .warning, .trace] ∧
      ((chattyPlan.atLevel .errors).session .empty 0 () chattyRequests).messages.map Prod.fst =
        [.error] := by
  refine ⟨by decide, chattyPlan.session_atLevel (by decide) .empty 0 () chattyRequests, ?_, ?_⟩
  · decide +kernel
  · decide +kernel

end TemplateGrammar
