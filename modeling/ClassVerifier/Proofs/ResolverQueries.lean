import ClassVerifier.Proofs.MethodIndependence
import ClassVerifier.Proofs.PlainChecks

/-! What a resolver is asked for while a class is verified. The methods raise questions, and a
session passes on those that are not about the class itself and have not been answered before. No
method goes on from a question without an answer. -/
namespace ClassVerifier
variable {α : Type} {resolver : Resolver} {c : ClassModel} {m : Method} {s : Session}
  {earlier names : List String}

/-- What is learnt from an answer. -/
def Answer.info? : Answer → Option ClassInfo
  | .known info => some info
  | .unknown | .broken _ => none

theorem Resolver.within_of_ne {name : String} (other : name ≠ c.name) :
    resolver.within c name = resolver name :=
  if_neg other

namespace Check

/-- The names asked about along the way, in order. -/
def questions (resolver : Resolver) : Check α → List String
  | done _ | stop _ => []
  | ask name next =>
    name :: match resolver name with
      | .known info => (next (some info)).questions resolver
      | .unknown => (next none).questions resolver
      | .broken _ => []
  | note _ _ next => (next ()).questions resolver

/-- Questions on the way to a result. All of them are answered but perhaps the last, and if that is
not, the result says so. -/
inductive Answered (resolver : Resolver) : List String → Except Fault α → Prop
  | nil {result : Except Fault α} : Answered resolver [] result
  | known {name : String} {info : ClassInfo} {names : List String} {result : Except Fault α}
      (said : resolver name = .known info) (rest : Answered resolver names result) :
      Answered resolver (name :: names) result
  | unknown {name : String} {offset : Option Nat} (said : resolver name = .unknown) :
      Answered resolver [name] (.error (.rejected offset (.unresolvedClass name)))
  | broken {name message : String} (said : resolver name = .broken message) :
      Answered resolver [name] (.error (.crashed message))

theorem Strict.answered {x : Check α} (strict : x.Strict) :
    Answered resolver (x.questions resolver) (x.run resolver) := by
  induction x with
  | done value | stop fault => exact .nil
  | note frame opcode next ih => exact ih () strict
  | ask name next ih =>
    obtain ⟨⟨offset, lacking⟩, known⟩ := strict
    rw [questions, run]
    cases said : resolver name with
    | known info => exact .known said (ih _ (known info))
    | unknown =>
      dsimp only
      rw [lacking]
      exact .unknown said
    | broken message => exact .broken said

namespace Answered
variable {result : Except Fault α}

/-- Leaving out questions leaves none without an answer before the last. -/
theorem sublist {fewer : List String} (h : Answered resolver names result)
    (sub : fewer.Sublist names) : Answered resolver fewer result := by
  induction h generalizing fewer with
  | nil => rw [List.sublist_nil.1 sub]; exact .nil
  | known said _ ih =>
    cases sub with
    | cons _ sub => exact ih sub
    | cons_cons _ sub => exact .known said (ih sub)
  | unknown said =>
    cases sub with
    | cons _ sub => rw [List.sublist_nil.1 sub]; exact .nil
    | cons_cons _ sub => rw [List.sublist_nil.1 sub]; exact .unknown said
  | broken said =>
    cases sub with
    | cons _ sub => rw [List.sublist_nil.1 sub]; exact .nil
    | cons_cons _ sub => rw [List.sublist_nil.1 sub]; exact .broken said

/-- Behind a question without an answer there is no other, and the result is that there was none. -/
theorem last {before after : List String} {name : String}
    (h : Answered resolver (before ++ name :: after) result) :
    (resolver name = .unknown →
      after = [] ∧ ∃ offset, result = .error (.rejected offset (.unresolvedClass name))) ∧
    ∀ message, resolver name = .broken message →
      after = [] ∧ result = .error (.crashed message) := by
  generalize split : before ++ name :: after = names at h
  induction h generalizing before with
  | nil => cases before <;> cases split
  | known said _ ih =>
    cases before with
    | nil =>
      cases split
      rw [said]
      exact ⟨nofun, nofun⟩
    | cons _ before => exact ih (List.cons.inj split).2
  | unknown said =>
    rcases List.append_eq_singleton_iff.1 split with ⟨rfl, here⟩ | ⟨_, none⟩
    · cases here
      exact ⟨fun _ => ⟨rfl, _, rfl⟩, fun message broken => (nomatch said.symm.trans broken)⟩
    · cases none
  | broken said =>
    rcases List.append_eq_singleton_iff.1 split with ⟨rfl, here⟩ | ⟨_, none⟩
    · cases here
      refine ⟨fun lacking => (nomatch said.symm.trans lacking), fun message broken => ⟨rfl, ?_⟩⟩
      cases said.symm.trans broken
      rfl
    · cases none

end Answered
end Check

namespace Resolver

/-- Those of the questions that a resolver is asked after some earlier ones: none about the class
itself, and none that came up before and was answered. -/
def queries (resolver : Resolver) (own : String) : List String → List String → List String
  | _, [] => []
  | earlier, name :: questions =>
    let later := resolver.queries own (earlier ++ [name]) questions
    if name = own ∨ name ∈ earlier ∧ (resolver name).info?.isSome then later else name :: later

variable {own : String} {questions : List String}

theorem queries_append (more : List String) :
    resolver.queries own earlier (questions ++ more) =
      resolver.queries own earlier questions ++
        resolver.queries own (earlier ++ questions) more := by
  induction questions generalizing earlier with
  | nil => rw [List.append_nil]; rfl
  | cons name questions ih =>
    rw [List.cons_append, queries, queries, ih, List.append_assoc, List.singleton_append]
    split <;> rfl

theorem queries_sublist : (resolver.queries own earlier questions).Sublist questions := by
  induction questions generalizing earlier with
  | nil => exact .slnil
  | cons name questions ih =>
    rw [queries]
    split
    · exact .cons _ ih
    · exact .cons_cons _ ih

theorem ne_of_mem_queries {name : String}
    (asked : name ∈ resolver.queries own earlier questions) : name ≠ own := by
  induction questions generalizing earlier with
  | nil => cases asked
  | cons first questions ih =>
    rw [queries] at asked
    split at asked
    · exact ih asked
    · next fresh =>
      rcases List.mem_cons.1 asked with rfl | asked
      · exact fun own => fresh (.inl own)
      · exact ih asked

/-- What is asked though it came up earlier has no answer. -/
theorem not_known_of_mem_queries {name : String}
    (asked : name ∈ resolver.queries own earlier questions) (before : name ∈ earlier)
    (info : ClassInfo) : resolver name ≠ .known info := by
  induction questions generalizing earlier with
  | nil => cases asked
  | cons first questions ih =>
    rw [queries] at asked
    split at asked
    · exact ih asked (List.mem_append_left _ before)
    · next fresh =>
      rcases List.mem_cons.1 asked with rfl | asked
      · exact fun known => fresh (.inr ⟨before, by rw [known]; rfl⟩)
      · exact ih asked (List.mem_append_left _ before)

/-- What is asked again has no answer. -/
theorem queries_pairwise :
    (resolver.queries own earlier questions).Pairwise fun before after =>
      before = after → ∀ info, resolver before ≠ .known info := by
  induction questions generalizing earlier with
  | nil => exact .nil
  | cons first questions ih =>
    rw [queries]
    split
    · exact ih
    · refine .cons (fun name asked same info => ?_) ih
      rw [same]
      refine not_known_of_mem_queries asked ?_ info
      rw [same]
      exact List.mem_append_right _ (List.mem_singleton.2 rfl)

end Resolver

namespace Session

/-- After these questions the session remembers what the resolver says of their names, but of the
class itself it need not remember anything. -/
def Remembers (s : Session) (resolver : Resolver) (c : ClassModel) (earlier : List String) : Prop :=
  ∀ name, s.answered[name]? =
    if name ≠ c.name ∧ name ∈ earlier then (resolver name).info? else none

@[simp] theorem asked_record (e : Event) : (s.record e).asked = s.asked := by
  unfold record
  split
  · split <;> rfl
  · rfl

@[simp] theorem answered_record (e : Event) : (s.record e).answered = s.answered := by
  unfold record
  split
  · split <;> rfl
  · rfl

namespace Remembers

theorem of_answered {t : Session} (h : s.Remembers resolver c earlier)
    (same : t.answered = s.answered) : t.Remembers resolver c earlier := by
  rw [Remembers, same]
  exact h

theorem of_empty (h : s.answered = {}) : s.Remembers resolver c [] := by
  intro name
  rw [h, Std.HashMap.getElem?_empty, if_neg fun h => nomatch h.2]

theorem faithful (h : s.Remembers resolver c earlier) : s.Faithful resolver := by
  intro name info remembered
  rw [h name] at remembered
  split at remembered
  · cases said : resolver name with
    | known _ => rw [said] at remembered; exact congrArg _ (Option.some.inj remembered)
    | unknown | broken _ => rw [said] at remembered; cases remembered
  · cases remembered

theorem of_some {name : String} {info : ClassInfo} (h : s.Remembers resolver c earlier)
    (answer : s.answered[name]? = some info) : name ∈ earlier ∧ resolver name = .known info := by
  refine ⟨?_, h.faithful name info answer⟩
  rw [h name] at answer
  split at answer
  · next came => exact came.2
  · cases answer

theorem of_none {name : String} (h : s.Remembers resolver c earlier) (other : name ≠ c.name)
    (answer : s.answered[name]? = none) :
    ¬(name ∈ earlier ∧ (resolver name).info?.isSome) := by
  rintro ⟨came, known⟩
  rw [h name, if_pos ⟨other, came⟩] at answer
  rw [answer] at known
  cases known

/-- Nothing new is learnt from a question about the class itself, from one that came up before, and
from one that is not answered. -/
theorem keep {name : String} (h : s.Remembers resolver c earlier)
    (nothing : name = c.name ∨ name ∈ earlier ∨ (resolver name).info? = none) :
    s.Remembers resolver c (earlier ++ [name]) := by
  intro other
  rw [h other]
  by_cases same : other = name
  · subst same
    rcases nothing with own | came | lacking
    · rw [if_neg (fun h => h.1 own), if_neg (fun h => h.1 own)]
    · simp [came]
    · rw [lacking, ite_self, ite_self]
  · simp [same]

theorem remember {name : String} {info : ClassInfo} (h : s.Remembers resolver c earlier)
    (other : name ≠ c.name) (known : resolver name = .known info) :
    Remembers { s with answered := s.answered.insert name info } resolver c
      (earlier ++ [name]) := by
  intro another
  rw [Std.HashMap.getElem?_insert, h another]
  by_cases same : name = another
  · subst same
    simp [other, known, Answer.info?]
  · simp [same, Ne.symm same]

end Remembers

/-- A session passes on the questions of a check to which it does not know the answer, and in the
end it remembers all answers. -/
theorem handle_queries (h : s.Remembers resolver c earlier) (x : Check α) :
    (handle resolver c x s).2.asked.toList = s.asked.toList ++
      resolver.queries c.name earlier (x.questions (resolver.within c)) ∧
    (handle resolver c x s).2.Remembers resolver c
      (earlier ++ x.questions (resolver.within c)) := by
  induction x generalizing s earlier with
  | done value | stop fault =>
    rw [Check.questions, List.append_nil]
    exact ⟨(List.append_nil _).symm, h⟩
  | note frame opcode next ih =>
    rw [handle, Check.questions, ← asked_record (s := s) (.instruction frame opcode)]
    exact ih () (h.of_answered (answered_record _))
  | ask name next ih =>
    rw [Check.questions, Resolver.queries]
    by_cases own : name = c.name
    · rw [handle, if_pos own, if_pos (.inl own), Resolver.within, if_pos own]
      have rest := ih (some c.info) (h.keep (.inl own))
      rwa [List.append_assoc] at rest
    · rw [handle, if_neg own, Resolver.within_of_ne own]
      cases answer : s.answered[name]? with
      | some info =>
        obtain ⟨came, known⟩ := h.of_some answer
        have rest := ih (some info) (h.keep (.inr (.inl came)))
        rw [known, if_pos (.inr ⟨came, rfl⟩)]
        rwa [List.append_assoc] at rest
      | none =>
        have h' : Remembers { s with asked := s.asked.push name } resolver c earlier := h
        rw [if_neg (not_or_intro own (h.of_none own answer)), List.append_cons,
          ← Array.toList_push]
        cases said : resolver name with
        | known info =>
          have rest := ih (some info) (h'.remember own said)
          rwa [List.append_assoc] at rest
        | unknown =>
          have rest := ih none (h'.keep (.inr (.inr (by rw [said]; rfl))))
          rwa [List.append_assoc] at rest
        | broken message =>
          exact ⟨(List.append_nil _).symm, h'.keep (.inr (.inr (by rw [said]; rfl)))⟩

end Session

namespace Verifier

/-- The names that a method asks about if it is verified by itself. -/
def questions (resolver : Resolver) (c : ClassModel) (m : Method) : List String :=
  if m.isSkipped then [] else (m.verify c).questions (resolver.within c)

/-- What comes of a method of a class: the names that the resolver is asked for, in order, and the
report. -/
structure Turn where
  method : Method
  asked : List String
  report : Option Failure

/-- The methods verified one after another, each in the session that those before it left behind. -/
def turns (resolver : Resolver) (c : ClassModel) : List Method → Session → List Turn
  | [], _ => []
  | m :: methods, s =>
    let (report, after) := verifyMethod resolver c m s
    ⟨m, after.asked.toList.drop s.asked.size, report⟩ :: turns resolver c methods after

/-- The methods that are verified when a class is: none if it is passed over, or goes to the legacy
verifier at once because it has no recorded frames. -/
def verified (v : Verifier) (c : ClassModel) : List Method :=
  if v.skips c || c.version < 50 then [] else c.methods

/-- What comes of these methods, nothing being remembered at first. -/
def classTurns (v : Verifier) (resolver : Resolver) (c : ClassModel) (s : Session) : List Turn :=
  turns resolver c (v.verified c) { s.record (.classStarted c.name) with answered := {} }

/-- A question of a method that is not answered is its last, and what its report is about. -/
theorem questions_answered (resolver : Resolver) (c : ClassModel) (m : Method) :
    Check.Answered (resolver.within c) (questions resolver c m)
      ((m.verify c).run (resolver.within c)) := by
  unfold questions
  split
  · exact .nil
  · exact (m.strict_verify c).answered

theorem verifyMethod_queries (h : s.Remembers resolver c earlier) :
    (verifyMethod resolver c m s).2.asked.toList =
      s.asked.toList ++ resolver.queries c.name earlier (questions resolver c m) ∧
    (verifyMethod resolver c m s).2.Remembers resolver c (earlier ++ questions resolver c m) := by
  unfold verifyMethod questions
  split
  · rw [Session.asked_record, List.append_nil]
    exact ⟨(List.append_nil _).symm, h.of_answered (Session.answered_record _)⟩
  · have handled := Session.handle_queries
      (h.of_answered (Session.answered_record (.methodStarted c.name m.signature))) (m.verify c)
    rw [Session.asked_record] at handled
    split <;> next result => rwa [result] at handled

private theorem drop_asked (h : s.Remembers resolver c earlier) :
    (verifyMethod resolver c m s).2.asked.toList.drop s.asked.size =
      resolver.queries c.name earlier (questions resolver c m) := by
  rw [(verifyMethod_queries h).1, List.drop_left' Array.length_toList]

theorem turns_asked (methods : List Method) (h : s.Remembers resolver c earlier) :
    (turns resolver c methods s).flatMap Turn.asked =
      resolver.queries c.name earlier (methods.flatMap (questions resolver c)) := by
  induction methods generalizing s earlier with
  | nil => rfl
  | cons m methods ih =>
    rw [turns, List.flatMap_cons, List.flatMap_cons, Resolver.queries_append]
    dsimp only
    rw [drop_asked h, ih (verifyMethod_queries h).2]

theorem verifyMethods_asked (methods : List Method) (h : s.Remembers resolver c earlier) :
    (verifyMethods resolver c methods s).2.asked.toList =
      s.asked.toList ++ (turns resolver c methods s).flatMap Turn.asked := by
  induction methods generalizing s earlier with
  | nil => exact (List.append_nil _).symm
  | cons m methods ih =>
    rw [turns, List.flatMap_cons, verifyMethods]
    dsimp only
    rw [ih (verifyMethod_queries h).2, drop_asked h, (verifyMethod_queries h).1,
      List.append_assoc]

theorem turns_report (methods : List Method) :
    (turns resolver c methods s).filterMap Turn.report =
      (verifyMethods resolver c methods s).1 := by
  induction methods generalizing s with
  | nil => rfl
  | cons m methods ih =>
    rw [turns, List.filterMap_cons, verifyMethods]
    dsimp only
    rw [ih]
    cases (verifyMethod resolver c m s).1 <;> rfl

/-- In its turn a method asks some of its questions, and it is reported as if it came alone. -/
theorem exists_queries_of_mem_turns {turn : Turn} (methods : List Method)
    (h : s.Remembers resolver c earlier) (mem : turn ∈ turns resolver c methods s) :
    turn.report = alone resolver c turn.method ∧ ∃ earlier, turn.asked =
      resolver.queries c.name earlier (questions resolver c turn.method) := by
  induction methods generalizing s earlier with
  | nil => cases mem
  | cons m methods ih =>
    rcases List.mem_cons.1 mem with rfl | mem
    · exact ⟨verifyMethod_alone h.faithful, earlier, drop_asked h⟩
    · exact ih (verifyMethod_queries h).2 mem

private theorem alone_of_error {fault : Fault} (verified : ¬m.isSkipped)
    (run : (m.verify c).run (resolver.within c) = .error fault) :
    alone resolver c m = some (fault.toFailure c.name m.signature) := by
  rw [alone, verifyMethod_fst (.of_empty rfl), if_neg verified, run]
  cases fault <;> rfl

/-- A name without an answer is the last one that its method asks for, and what the report on the
method is about. -/
theorem last_of_mem_turns {methods : List Method} {turn : Turn} {before after : List String}
    {name : String} (h : s.Remembers resolver c earlier)
    (mem : turn ∈ turns resolver c methods s) (split : turn.asked = before ++ name :: after) :
    (resolver name = .unknown → after = [] ∧ ∃ offset, turn.report =
      some ⟨c.name, some turn.method.signature, offset, .unresolvedClass name⟩) ∧
    ∀ message, resolver name = .broken message → after = [] ∧ turn.report =
      some ⟨c.name, some turn.method.signature, none, .internal message⟩ := by
  obtain ⟨report, earlier, asked⟩ := exists_queries_of_mem_turns methods h mem
  rw [asked] at split
  have here : name ∈ resolver.queries c.name earlier (questions resolver c turn.method) := by
    rw [split]
    exact List.mem_append_right _ List.mem_cons_self
  have verified : ¬turn.method.isSkipped := by
    intro skipped
    rw [questions, if_pos skipped] at here
    cases here
  have part : (before ++ name :: after).Sublist (questions resolver c turn.method) :=
    split ▸ Resolver.queries_sublist
  obtain ⟨unknown, broken⟩ := ((questions_answered resolver c turn.method).sublist part).last
  rw [Resolver.within_of_ne (Resolver.ne_of_mem_queries here)] at unknown broken
  rw [report]
  refine ⟨fun lacking => ?_, fun message down => ?_⟩
  · obtain ⟨last, offset, run⟩ := unknown lacking
    exact ⟨last, offset, alone_of_error verified run⟩
  · obtain ⟨last, run⟩ := broken message down
    exact ⟨last, alone_of_error verified run⟩

private theorem remembers_start (e : Event) :
    Session.Remembers { s.record e with answered := {} } resolver c [] :=
  .of_empty rfl

private theorem verify_eq (v : Verifier) (resolver : Resolver) (c : ClassModel) (s : Session) :
    v.verify resolver c s =
      if v.skips c then ([], s.record (.bootstrapSkipped c.name))
      else
        let (failures, s) := v.verifyClass resolver c (s.record (.classStarted c.name))
        (failures, s.record (.classFinished c.name failures.length)) :=
  rfl

/-- The legacy verifier asks nothing. -/
private theorem verifyClass_asked (v : Verifier) :
    (v.verifyClass resolver c s).2.asked =
      if c.version < 50 then s.asked
      else (verifyMethods resolver c c.methods { s with answered := {} }).2.asked := by
  unfold verifyClass stackMapVersion
  split
  · exact Session.asked_record _
  · dsimp only
    split
    · exact Session.asked_record _
    · rfl

theorem verify_asked (v : Verifier) (resolver : Resolver) (c : ClassModel) (s : Session) :
    (v.verify resolver c s).2.asked.toList =
      s.asked.toList ++ (v.classTurns resolver c s).flatMap Turn.asked := by
  rw [verify_eq, classTurns, verified]
  by_cases skipped : v.skips c
  · rw [if_pos skipped, if_pos (by simp [skipped]), Session.asked_record]
    exact (List.append_nil _).symm
  · rw [if_neg skipped]
    dsimp only
    rw [Session.asked_record, verifyClass_asked]
    by_cases old : c.version < 50
    · rw [if_pos old, if_pos (by simp [old]), Session.asked_record]
      exact (List.append_nil _).symm
    · rw [if_neg old, if_neg (by simp [skipped, old])]
      refine (verifyMethods_asked _ (remembers_start _)).trans ?_
      exact congrArg (·.toList ++ _) (Session.asked_record _)

theorem verify_reports (v : Verifier) (resolver : Resolver) (c : ClassModel) (s : Session) :
    (v.verify resolver c s).1 =
      if v.skips c then []
      else if v.delegates resolver c then v.legacy c
      else (v.classTurns resolver c s).filterMap Turn.report := by
  rw [verify_eq]
  by_cases skipped : v.skips c
  · rw [if_pos skipped, if_pos skipped]
  · rw [if_neg skipped, if_neg skipped]
    refine (v.verifyClass_eq resolver c _).1.trans ?_
    by_cases delegated : v.delegates resolver c
    · rw [if_pos delegated, if_pos delegated]
    · have recorded : ¬(v.skips c || c.version < 50) := by
        simp only [delegates, Bool.or_eq_true, not_or] at delegated
        simp [skipped, delegated.1]
      rw [if_neg delegated, if_neg delegated, classTurns, verified, if_neg recorded, turns_report,
        verifyMethods_fst _ (.of_empty rfl)]

/-- What a resolver is asked for while a class is verified, whatever the session has been through:
what the methods ask about, one after another, but for the class itself and for names that came up
before and were answered. So nothing is asked for again once it was answered, and a name without an
answer is the last one that its method asks for, and what the report on that method is about. These
reports are the result, unless the class goes to the legacy verifier. -/
theorem queries_disciplined (v : Verifier) (resolver : Resolver) (c : ClassModel) (s : Session) :
    ∃ names,
      (v.verify resolver c s).2.asked.toList = s.asked.toList ++ names ∧
      names = (v.classTurns resolver c s).flatMap Turn.asked ∧
      names = resolver.queries c.name [] ((v.verified c).flatMap (questions resolver c)) ∧
      c.name ∉ names ∧
      (names.Pairwise fun before after =>
        before = after → ∀ info, resolver before ≠ .known info) ∧
      (∀ turn ∈ v.classTurns resolver c s, ∀ before name after,
        turn.asked = before ++ name :: after →
          (resolver name = .unknown → after = [] ∧ ∃ offset, turn.report =
            some ⟨c.name, some turn.method.signature, offset, .unresolvedClass name⟩) ∧
          ∀ message, resolver name = .broken message → after = [] ∧ turn.report =
            some ⟨c.name, some turn.method.signature, none, .internal message⟩) ∧
      (v.verify resolver c s).1 =
        if v.skips c then []
        else if v.delegates resolver c then v.legacy c
        else (v.classTurns resolver c s).filterMap Turn.report := by
  have names : (v.classTurns resolver c s).flatMap Turn.asked =
      resolver.queries c.name [] ((v.verified c).flatMap (questions resolver c)) :=
    turns_asked _ (remembers_start _)
  refine ⟨_, v.verify_asked resolver c s, rfl, names, ?_, ?_, ?_, v.verify_reports resolver c s⟩
  · rw [names]
    exact fun own => Resolver.ne_of_mem_queries own rfl
  · rw [names]
    exact Resolver.queries_pairwise
  · intro turn mem before name after split
    exact last_of_mem_turns (remembers_start _) mem split

/-- Protects its only instruction by a handler. -/
def guarded (name : String) (caught : UInt16) : Method := ⟨0x0008, name, "()V", some {
  maxStack := 1
  maxLocals := 0
  bytes := #[0xb1]
  handlers := [⟨0, 1, 0, caught⟩] }⟩

def cautious : ClassModel where
  version := 52
  access := 0x0021
  name := "Cautious"
  superclass := some ClassName.object
  methods := [guarded "first" 2, guarded "second" 2, guarded "third" 4]
  pool := .ofList [.utf8 "Lost", .classRef 1, .utf8 "Gone", .classRef 3]

/-- Knows one class, and breaks down over another one. -/
def forgetfulResolver : Resolver := fun name =>
  if name = ClassName.throwable then .known (.subclassOf ClassName.object)
  else if name = "Gone" then .broken "no Gone"
  else .unknown

/-- The first method makes the root of the throwables known. The second asks again for the class
that the first one did not find, and both are reported for it. -/
theorem queries_disciplined_cautious :
    (({} : Verifier).verify forgetfulResolver cautious).2.asked.toList =
      [ClassName.throwable, "Lost", "Lost", "Gone"] ∧
    ∀ turn ∈ ({} : Verifier).classTurns forgetfulResolver cautious {}, "Lost" ∈ turn.asked →
      turn.asked.getLast? = some "Lost" ∧ ∃ offset, turn.report =
        some ⟨"Cautious", some turn.method.signature, offset, .unresolvedClass "Lost"⟩ := by
  obtain ⟨names, asked, -, exact, -, -, last, -⟩ :=
    queries_disciplined {} forgetfulResolver cautious {}
  refine ⟨?_, fun turn mem lost => ?_⟩
  · rw [asked, exact]
    decide +kernel
  · obtain ⟨before, after, split⟩ := List.append_of_mem lost
    obtain ⟨rfl, report⟩ := (last turn mem before "Lost" after split).1 (by decide +kernel)
    rw [split, List.getLast?_concat]
    exact ⟨rfl, report⟩

end Verifier
end ClassVerifier
