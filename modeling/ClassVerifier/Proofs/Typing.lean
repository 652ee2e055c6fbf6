import ClassVerifier.Proofs.Visits

/-! The frames that an accepted method has in front of its instructions: one for each, and together
they type the whole body. -/
namespace ClassVerifier
variable {r : Resolver} {c : ClassModel} {method : Method} {code : Code} {m : Body}
  {initial : Frame}

theorem Code.checkHandlers_ok {listing : Listing} {pool : ConstantPool} {handlers : List Handler}
    {u : Unit} : (code.checkHandlers listing pool handlers).run r = .ok u ↔
      ∀ h ∈ handlers, (code.checkHandler listing pool h).run r = .ok () := by
  induction handlers with
  | nil => simp [checkHandlers]
  | cons h handlers ih =>
    rw [checkHandlers, Check.bind_ok, List.forall_mem_cons, ih]
    constructor
    · rintro ⟨_, both⟩
      exact both
    · intro both
      exact ⟨(), both⟩

theorem Code.checkVariables_ok {listing : Listing} {locals : List LocalVariable} {u : Unit} :
    code.checkVariables listing locals = .ok u ↔
      ∀ v ∈ locals, code.checkVariable listing v = .ok () := by
  induction locals with
  | nil => simp [checkVariables]
  | cons v locals ih =>
    rw [checkVariables, except_bind_ok, List.forall_mem_cons, ih]
    constructor
    · rintro ⟨_, both⟩
      exact both
    · intro both
      exact ⟨(), both⟩

/-- The parts of a body that was prepared, and the checks they have passed. -/
structure Code.Prepared (r : Resolver) (c : ClassModel) (method : Method) (code : Code) (m : Body)
    (initial : Frame) : Prop where
  owner_eq : m.owner = c
  method_eq : m.method = method
  code_eq : m.code = code
  thisType_eq : m.thisType = .reference c.name
  length_ok : 0 < code.bytes.size && code.bytes.size ≤ Code.maxLength
  listing_eq : Listing.ofCode code.bytes = .ok m.listing
  entry_eq : Frame.entry method (.reference c.name) code.maxLocals.toNat code.maxStack.toNat =
    .ok (initial, m.resultType)
  handlers_ok : (code.checkHandlers m.listing c.pool code.handlers).run r = .ok ()
  variables_ok : code.checkVariables m.listing code.localVariables = .ok ()
  stackMap_eq : StackMap.ofPayload
    ⟨code.maxLocals.toNat, code.maxStack.toNat, m.listing, c.pool⟩ initial code.stackMap =
      .ok m.stackMap
  range_eq : (m.protectedStart, m.protectedStop) = code.protectedRange

theorem Code.prepare_ok (h : (code.prepare c method).run r = .ok (m, initial)) :
    code.Prepared r c method m initial := by
  obtain ⟨_, length, h⟩ := Check.bind_ok.1 h
  obtain ⟨⟨initial', resultType⟩, entry, h⟩ := Check.bind_ok.1 h
  obtain ⟨listing, list, h⟩ := Check.bind_ok.1 h
  obtain ⟨_, handlers, h⟩ := Check.bind_ok.1 h
  obtain ⟨_, locals, h⟩ := Check.bind_ok.1 h
  dsimp only at h
  split at h
  · next stackMap payload =>
    obtain ⟨_, same, h⟩ := Check.bind_ok.1 h
    cases Check.pure_ok.1 same
    cases Check.pure_ok.1 h
    exact {
      owner_eq := rfl
      method_eq := rfl
      code_eq := rfl
      thisType_eq := rfl
      length_ok := Check.require_ok.1 length
      listing_eq := listing_ok.1 (Check.lift_ok.1 list)
      entry_eq := Check.lift_ok.1 entry
      handlers_ok := handlers
      variables_ok := Check.lift_ok.1 locals
      stackMap_eq := payload
      range_eq := rfl }
  · obtain ⟨_, stop, _⟩ := Check.bind_ok.1 h
    cases stop

/-- Nothing else is checked before the walk. -/
theorem Code.Prepared.prepare_eq (p : code.Prepared r c method m initial) :
    (code.prepare c method).run r = .ok (m, initial) := by
  refine Check.bind_ok.2 ⟨(), Check.require_ok.2 p.length_ok, ?_⟩
  refine Check.bind_ok.2 ⟨(initial, m.resultType), Check.lift_ok.2 p.entry_eq, ?_⟩
  refine Check.bind_ok.2 ⟨m.listing, Check.lift_ok.2 (Code.listing_ok.2 p.listing_eq), ?_⟩
  refine Check.bind_ok.2 ⟨(), p.handlers_ok, ?_⟩
  refine Check.bind_ok.2 ⟨(), Check.lift_ok.2 p.variables_ok, ?_⟩
  dsimp only
  rw [p.stackMap_eq]
  refine Check.pure_ok.2 ?_
  rw [← p.range_eq, ← p.method_eq, ← p.code_eq, ← p.thisType_eq, ← p.owner_eq]

/-- A method with a body is verified by walking over the body once its tables are checked. -/
theorem Method.verify_eq (body : method.code = some code) : method.verify c =
    (code.prepare c method >>= fun p =>
      p.1.walk 0 ⟨p.2, p.1.stackMap.frames.toList, false⟩) := by
  rw [Method.verify, body]

/-- The visits type the body: each instruction has one, the first frame reaches the first of them,
every frame reaches the visits where control may go from it by itself, and recorded frames stand
where they are recorded. -/
structure Body.Typing (r : Resolver) (m : Body) (initial : Frame) (vs : List Visit) : Prop where
  sites : vs.map (·.site) = m.listing.body
  checked : ∀ v ∈ vs, m.Checked r v
  first : ∃ v ∈ vs, v.site.offset = 0 ∧ initial.Reaches r v.before
  next : ∀ v ∈ vs, v.flow.continues → ∃ w ∈ vs, w.site.offset = v.site.next ∧
    v.after.Reaches r w.before
  recorded : ∀ {target : Int} {f : Frame}, m.stackMap.frameAt? target = some f →
    ∃ v ∈ vs, (v.site.offset : Int) = target ∧ v.before.Agrees f ∧
      ∀ g : Frame, g.Flows r f → g.Reaches r v.before

namespace Body.Typing
variable {vs : List Visit}

theorem exists_visit (t : m.Typing r initial vs) {i : Located} (hi : i ∈ m.listing.body) :
    ∃ v ∈ vs, v.site = i := List.mem_map.1 (t.sites ▸ hi)

theorem site_mem (t : m.Typing r initial vs) {v : Visit} (hv : v ∈ vs) :
    v.site ∈ m.listing.body := t.sites ▸ List.mem_map_of_mem hv

end Body.Typing

namespace Code.Prepared

theorem thisType_initialized (p : code.Prepared r c method m initial) :
    m.thisType.isUninitialized = false := by
  rw [p.thisType_eq]
  rfl

theorem admits_initial (p : code.Prepared r c method m initial) :
    StackMap.Surroundings.Admits
      ⟨code.maxLocals.toNat, code.maxStack.toNat, m.listing, c.pool⟩ initial :=
  StackMap.Surroundings.admits_entry p.entry_eq

theorem recorded (p : code.Prepared r c method m initial) :
    StackMap.Recorded ⟨code.maxLocals.toNat, code.maxStack.toNat, m.listing, c.pool⟩
      m.stackMap.frames.toList := StackMap.ofPayload_ok p.admits_initial p.stackMap_eq

/-- The walk begins at a sound position. -/
theorem sound (p : code.Prepared r c method m initial) :
    Body.Sound ⟨code.maxLocals.toNat, code.maxStack.toNat, m.listing, c.pool⟩
      ⟨initial, m.stackMap.frames.toList, false⟩ where
  regular := p.admits_initial.regular
  maxLocals_eq := p.admits_initial.maxLocals_eq
  admitted := p.recorded.admitted
  ascending := p.recorded.ascending

/-- The instructions are where listing the code finds them. -/
theorem listed (p : code.Prepared r c method m initial) {b : Nat} {i : Located}
    (h : (Listing.ofCode code.bytes).toOption.bind (·.at? b) = some i) :
    m.listing.at? b = some i := by
  rw [p.listing_eq] at h
  exact h

theorem ofCode_eq (p : code.Prepared r c method m initial) :
    Listing.ofCode m.code.bytes = .ok m.listing := by
  rw [p.code_eq]
  exact p.listing_eq

/-- A walk over the body visits the instructions that are listed. -/
theorem sites (p : code.Prepared r c method m initial) {q : Position} {vs : List Visit}
    (h : m.Visits r 0 q vs) : vs.map (·.site) = m.listing.body :=
  h.covers.unique (Listing.covers_ofCode p.ofCode_eq)

theorem typing (p : code.Prepared r c method m initial) {vs : List Visit}
    (h : m.Visits r 0 ⟨initial, m.stackMap.frames.toList, false⟩ vs) :
    m.Typing r initial vs where
  sites := p.sites h
  checked := h.checked p.sound
  first := h.first p.sound rfl
  next := h.next p.sound
  recorded := by
    intro target f hf
    obtain ⟨mem, htarget⟩ := StackMap.frameAt?_some hf
    have start {g : Frame} (hg : g ∈ m.stackMap.frames.toList) :
        ∃ v ∈ vs, v.site.offset = g.offset := by
      obtain ⟨i, hi, here⟩ := (Listing.isStart_iff p.listing_eq).1 (p.recorded.starts g hg)
      rw [← p.sites h] at hi
      obtain ⟨v, hv, rfl⟩ := List.mem_map.1 hi
      exact ⟨v, hv, here⟩
    obtain ⟨v, hv, hsite, agrees⟩ := h.recorded p.sound (fun g hg => start hg) f mem
    refine ⟨v, hv, hsite ▸ htarget, agrees, fun g flows => ?_⟩
    exact Body.reaches_of_recorded flows (p.recorded.admitted f mem) agrees

theorem at?_site (p : code.Prepared r c method m initial) {vs : List Visit}
    (t : m.Typing r initial vs) {v : Visit} (hv : v ∈ vs) :
    m.listing.at? v.site.offset = some v.site :=
  (Listing.at?_eq_some_iff p.listing_eq).2 ⟨t.site_mem hv, rfl⟩

theorem exists_visit_at (p : code.Prepared r c method m initial) {vs : List Visit}
    (t : m.Typing r initial vs) {b : Nat} {i : Located} (hi : m.listing.at? b = some i) :
    ∃ v ∈ vs, v.site = i ∧ i.offset = b := by
  obtain ⟨mem, here⟩ := (Listing.at?_eq_some_iff p.listing_eq).1 hi
  obtain ⟨v, hv, rfl⟩ := t.exists_visit mem
  exact ⟨v, hv, rfl, here⟩

end Code.Prepared

/-- Visits up to the end of the body accept the method, and their frames are what is noted. -/
theorem Code.Prepared.verified (p : code.Prepared r c method m initial)
    (body : method.code = some code) {vs : List Visit}
    (h : m.Visits r 0 ⟨initial, m.stackMap.frames.toList, false⟩ vs) :
    (method.verify c).run r = .ok () ∧
      (method.verify c).notes r = vs.map fun v => (v.before, v.site.opcode) := by
  rw [Method.verify_eq body]
  refine ⟨Check.bind_ok.2 ⟨_, p.prepare_eq, h.walked.1⟩, ?_⟩
  rw [Check.notes_bind_of_ok p.prepare_eq, (code.plain_prepare c method).silent.notes_eq,
    List.nil_append]
  exact h.walked.2

/-- An accepted method was prepared, and visited up to its end. -/
theorem Method.prepared_of_verify (body : method.code = some code)
    (accepted : (method.verify c).run r = .ok ()) :
    ∃ m initial vs, (code.prepare c method).run r = .ok (m, initial) ∧
      m.Visits r 0 ⟨initial, m.stackMap.frames.toList, false⟩ vs := by
  rw [Method.verify_eq body] at accepted
  obtain ⟨⟨m, initial⟩, prepared, walked⟩ := Check.bind_ok.1 accepted
  obtain ⟨vs, visits⟩ := Body.walk_visits walked
  exact ⟨m, initial, vs, prepared, visits⟩

/-- The frames that the walk has in front of the instruction at the offset. -/
def Method.framesAt (resolver : Resolver) (c : ClassModel) (method : Method) (b : Nat) :
    List Frame :=
  ((method.verify c).notes (resolver.within c)).filterMap fun (f, _) =>
    if f.offset = b then some f else none

/-- Among visits in order, the frame of one is the only one at its offset. -/
private theorem frames_of_visits {vs : List Visit}
    (ascending : vs.Pairwise (·.site.offset < ·.site.offset))
    (offsets : ∀ v ∈ vs, v.before.offset = v.site.offset) {v : Visit} (hv : v ∈ vs) :
    (vs.filterMap fun w => if w.before.offset = v.site.offset then some w.before else none) =
      [v.before] := by
  induction vs with
  | nil => cases hv
  | cons w vs ih =>
    obtain ⟨behind, ascending⟩ := List.pairwise_cons.1 ascending
    obtain ⟨hw, others⟩ := List.forall_mem_cons.1 offsets
    rcases List.mem_cons.1 hv with rfl | hv
    · rw [List.filterMap_cons, if_pos hw]
      refine congrArg (v.before :: ·) (List.filterMap_eq_nil_iff.2 fun u hu => if_neg ?_)
      rw [others u hu]
      exact Nat.ne_of_gt (behind u hu)
    · rw [List.filterMap_cons, if_neg (hw ▸ Nat.ne_of_lt (behind v hv))]
      exact ih ascending others hv

/-- The walk over an accepted method visits every instruction, and the frames that it notes are
those of its visits. -/
theorem Method.verify_visits {resolver : Resolver} (body : method.code = some code)
    (accepted : (method.verify c).run (resolver.within c) = .ok ()) :
    ∃ m initial vs, (code.prepare c method).run (resolver.within c) = .ok (m, initial) ∧
      m.Visits (resolver.within c) 0 ⟨initial, m.stackMap.frames.toList, false⟩ vs ∧
      ∀ v ∈ vs, method.framesAt resolver c v.site.offset = [v.before] := by
  obtain ⟨m, initial, vs, prepared, visits⟩ := prepared_of_verify body accepted
  have p := Code.prepare_ok prepared
  have typing := p.typing visits
  refine ⟨m, initial, vs, prepared, visits, fun v hv => ?_⟩
  have ascending : vs.Pairwise (·.site.offset < ·.site.offset) := by
    have sites := (Listing.covers_ofCode p.listing_eq).ascending
    rwa [← typing.sites, List.pairwise_map] at sites
  rw [Method.framesAt, (p.verified body visits).2, List.filterMap_map]
  exact frames_of_visits ascending (fun w hw => (typing.checked w hw).offset_eq) hv

/-- An accepted method is typed by the frames that its walk notes. -/
theorem Method.verify_typing {resolver : Resolver} (body : method.code = some code)
    (accepted : (method.verify c).run (resolver.within c) = .ok ()) :
    ∃ m initial vs, (code.prepare c method).run (resolver.within c) = .ok (m, initial) ∧
      m.Typing (resolver.within c) initial vs ∧
      ∀ v ∈ vs, method.framesAt resolver c v.site.offset = [v.before] := by
  obtain ⟨m, initial, vs, prepared, visits, frames⟩ := Method.verify_visits body accepted
  exact ⟨m, initial, vs, prepared, (Code.prepare_ok prepared).typing visits, frames⟩

end ClassVerifier
