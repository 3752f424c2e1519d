import TreeLang.Proofs.Builder.Scoping

namespace TreeLang.BlockBuilder

-- What a caller asks of a block builder. A build is made with the identities that are
-- left by then.
inductive Request where
  | declare (v : Variable)
  | add (e : Expr)
  | build (supply : Supply)

def Request.child? : Request → Option Expr
  | add e => some e
  | declare _ | build _ => none

-- What a builder has been asked and, of a build, what came of it.
inductive Event where
  | declared (v : Variable)
  | added (e : Expr)
  | built (result : Except Error Expr)

-- The children that were handed out with a block.
def Event.children : Event → List Expr
  | built (.ok block) => block.children
  | built (.error _) | declared _ | added _ => []

-- A builder with all that it has been through since it was new.
structure Session where
  builder : BlockBuilder := {}
  events : List Event := []

namespace Session

def serve (session : Session) : Request → Session
  | .declare v =>
      { builder := session.builder.declare v, events := session.events ++ [.declared v] }
  | .add e => { builder := session.builder.add e, events := session.events ++ [.added e] }
  | .build supply =>
      { builder := (session.builder.build.effect supply).1.2,
        events := session.events ++ [.built (session.builder.build.effect supply).1.1] }

def serveAll (requests : List Request) : Session :=
  requests.foldl serve {}

end Session

def noteDeclared (vs : List Variable) : Event → List Variable
  | .declared v => vs ++ [v]
  | .added _ => vs
  | .built _ => []

-- The variables that were declared since the last build, whatever came of it.
def declaredSince (events : List Event) : List Variable :=
  events.foldl noteDeclared []

def noteAdded (es : List Expr) : Event → List Expr
  | .added e => es ++ [e]
  | .built (.ok _) => []
  | .declared _ | .built (.error _) => es

-- The expressions that were added since the last build that succeeded.
def addedSince (events : List Event) : List Expr :=
  events.foldl noteAdded []

-- The expression was added, and no build has succeeded since.
def Pending (events : List Event) (e : Expr) : Prop :=
  ∃ before after, events = before ++ .added e :: after ∧ ∀ block, .built (.ok block) ∉ after

theorem declaredSince_concat (events : List Event) (event : Event) :
    declaredSince (events ++ [event]) = noteDeclared (declaredSince events) event := by
  simp [declaredSince]

theorem addedSince_concat (events : List Event) (event : Event) :
    addedSince (events ++ [event]) = noteAdded (addedSince events) event := by
  simp [addedSince]

-- A last event adds to what is pending, or leaves it, or clears it.
theorem pending_concat_iff {events : List Event} {event : Event} {e : Expr} :
    Pending (events ++ [event]) e ↔
      event = .added e ∨ Pending events e ∧ ∀ block, event ≠ .built (.ok block) := by
  constructor
  · rintro ⟨before, after, hsplit, hafter⟩
    rcases List.eq_nil_or_concat' after with rfl | ⟨after, last, rfl⟩
    · obtain ⟨-, hlast⟩ := List.append_inj' hsplit rfl
      exact .inl (List.singleton_inj.mp hlast)
    · have hsplit' : events ++ [event] = (before ++ .added e :: after) ++ [last] := by simp [hsplit]
      obtain ⟨hevents, hlast⟩ := List.append_inj' hsplit' rfl
      obtain rfl := List.singleton_inj.mp hlast
      refine .inr ⟨⟨before, after, hevents, fun block hmem => ?_⟩, fun block hblock => ?_⟩
      · exact hafter block (List.mem_append_left _ hmem)
      · exact hafter block (by simp [hblock])
  · rintro (rfl | ⟨⟨before, after, rfl, hafter⟩, hevent⟩)
    · exact ⟨events, [], rfl, by simp⟩
    · refine ⟨before, after ++ [event], by simp, fun block hmem => ?_⟩
      rcases List.mem_append.mp hmem with hmem | hmem
      · exact hafter block hmem
      · exact hevent block (List.mem_singleton.mp hmem).symm

theorem mem_addedSince_iff {events : List Event} {e : Expr} :
    e ∈ addedSince events ↔ Pending events e := by
  induction events using List.reverseRecOn with
  | nil => simp [addedSince, Pending]
  | append_singleton events event ih =>
      rw [addedSince_concat, pending_concat_iff, ← ih]
      cases event with
      | declared v => simp [noteAdded]
      | added x => simp [noteAdded, or_comm, eq_comm]
      | built result => cases result <;> simp [noteAdded]

-- What a build may come to after these events: the first clash among the variables that
-- were declared since the last build, no block for want of an expression, or a block of
-- all that is pending.
inductive Explained (before : List Event) : Except Error Expr → Prop where
  | clash {earlier later : List Variable} {v : Variable} {error : Error}
      (hsplit : declaredSince before = earlier ++ v :: later)
      (hclear : ScopeBuilder.Clear earlier)
      (herror : ScopeBuilder.fault? earlier v = some error) : Explained before (.error error)
  | empty (hclear : ScopeBuilder.Clear (declaredSince before)) (hnone : ∀ e, ¬ Pending before e) :
      Explained before (.error { cause := .emptyBlock })
  | built (hclear : ScopeBuilder.Clear (declaredSince before)) {e : Expr} (he : Pending before e)
      (id : NodeId) :
      Explained before (.ok (.block id ⟨declaredSince before⟩ (addedSince before)))

-- The books of a builder that has served these requests: every expression that was added
-- is either a child of a block that was built or still held, all in their order.
structure Session.Accounts (session : Session) (requests : List Request) : Prop where
  conserved : session.events.flatMap Event.children ++ session.builder.children =
    requests.filterMap Request.child?
  scope : session.builder.scope = ScopeBuilder.addAll {} (declaredSince session.events)
  children : session.builder.children = addedSince session.events
  explained : ∀ before result after, session.events = before ++ .built result :: after →
    Explained before result

namespace Session

-- An event that is no build needs no explanation.
theorem explained_concat {events : List Event} {event : Event}
    (h : ∀ before result after, events = before ++ .built result :: after →
      Explained before result)
    (hlast : ∀ result, event = .built result → Explained events result) :
    ∀ before result after, events ++ [event] = before ++ .built result :: after →
      Explained before result := by
  intro before result after hsplit
  rcases List.eq_nil_or_concat' after with rfl | ⟨after, last, rfl⟩
  · obtain ⟨rfl, hevent⟩ := List.append_inj' hsplit rfl
    exact hlast result (List.singleton_inj.mp hevent)
  · have hsplit' : events ++ [event] = (before ++ .built result :: after) ++ [last] := by
      simp [hsplit]
    exact h before result after (List.append_inj' hsplit' rfl).1

namespace Accounts

variable {session : Session} {requests : List Request}

theorem new : Accounts {} [] where
  conserved := rfl
  scope := rfl
  children := rfl
  explained := by simp

theorem declare (h : session.Accounts requests) (v : Variable) :
    (session.serve (.declare v)).Accounts (requests ++ [.declare v]) where
  conserved := by
    simpa [serve, BlockBuilder.declare, Event.children, Request.child?, List.filterMap_cons] using
      h.conserved
  scope := by
    simp only [serve, BlockBuilder.declare, declaredSince_concat, noteDeclared, h.scope]
    rw [ScopeBuilder.addAll_append]
    rfl
  children := by
    simpa [serve, BlockBuilder.declare, addedSince_concat, noteAdded] using h.children
  explained := explained_concat h.explained (by simp)

theorem add (h : session.Accounts requests) (e : Expr) :
    (session.serve (.add e)).Accounts (requests ++ [.add e]) where
  conserved := by
    simp [serve, BlockBuilder.add, Event.children, Request.child?, ← h.conserved]
  scope := by simpa [serve, BlockBuilder.add, declaredSince_concat, noteDeclared] using h.scope
  children := by simp [serve, BlockBuilder.add, addedSince_concat, noteAdded, h.children]
  explained := explained_concat h.explained (by simp)

theorem nothing_pending_iff (h : session.Accounts requests) :
    session.builder.children = [] ↔ ∀ e, ¬ Pending session.events e := by
  rw [h.children, List.eq_nil_iff_forall_not_mem]
  exact forall_congr' fun e => not_congr mem_addedSince_iff

theorem explains (h : session.Accounts requests) {result : Except Error Expr}
    {left : BlockBuilder} {supply rest : Supply}
    (houtcome : session.builder.Outcome supply ((result, left), rest)) :
    Explained session.events result := by
  have hscope := h.scope
  rcases ScopeBuilder.clear_or_first_clash (declaredSince session.events) with
    hclear | ⟨earlier, v, later, hsplit, hearlier, hclash⟩
  · rw [ScopeBuilder.addAll_clear hclear] at hscope
    cases houtcome with
    | scopeFault hfault =>
        rw [hscope] at hfault
        cases hfault
    | empty hfault hempty => exact .empty hclear (h.nothing_pending_iff.mp hempty)
    | built hfault hne =>
        obtain ⟨e, he⟩ := List.exists_mem_of_ne_nil _ hne
        rw [h.children] at he
        rw [hscope, h.children]
        exact .built hclear (mem_addedSince_iff.mp he) supply.nextNode
  · obtain ⟨error, herror⟩ := ScopeBuilder.fault?_of_clashes hclash
    have hreported : session.builder.scope.build = (.error error, {}) := by
      rw [hscope, hsplit]
      exact ScopeBuilder.build_first_clash hearlier herror later
    cases houtcome with
    | scopeFault hfault =>
        rw [ScopeBuilder.build_of_fault hfault] at hreported
        obtain ⟨heq, -⟩ := Prod.mk.inj hreported
        obtain rfl := Except.error.inj heq
        exact .clash hsplit hearlier herror
    | empty hfault hempty =>
        rw [ScopeBuilder.build_of_no_fault hfault] at hreported
        cases hreported
    | built hfault hne =>
        rw [ScopeBuilder.build_of_no_fault hfault] at hreported
        cases hreported

theorem build (h : session.Accounts requests) (supply : Supply) :
    (session.serve (.build supply)).Accounts (requests ++ [.build supply]) := by
  have houtcome := session.builder.build_outcome supply
  rcases hbuild : session.builder.build.effect supply with ⟨⟨result, left⟩, rest⟩
  rw [hbuild] at houtcome
  have hserved : session.serve (.build supply) =
      { builder := left, events := session.events ++ [.built result] } := by
    rw [serve, hbuild]
  rw [hserved]
  refine ⟨?_, ?_, ?_, explained_concat h.explained fun other hother => ?_⟩
  · have hconserved := h.conserved
    cases houtcome with
    | scopeFault hfault =>
        simpa [Event.children, Request.child?, List.filterMap_cons] using hconserved
    | empty hfault hempty =>
        simpa [Event.children, Request.child?, List.filterMap_cons, hempty] using hconserved
    | built hfault hne =>
        simpa [Event.children, Request.child?, List.filterMap_cons, Expr.children] using hconserved
  · rw [declaredSince_concat]
    cases houtcome <;> rfl
  · rw [addedSince_concat]
    cases houtcome with
    | scopeFault hfault => exact h.children
    | empty hfault hempty => exact hempty.symm.trans h.children
    | built hfault hne => rfl
  · obtain rfl := Event.built.inj hother
    exact h.explains houtcome

end Accounts

theorem serveAll_accounts (requests : List Request) : (serveAll requests).Accounts requests := by
  induction requests using List.reverseRecOn with
  | nil => exact .new
  | append_singleton requests request ih =>
      rw [serveAll, List.foldl_concat]
      cases request with
      | declare v => exact ih.declare v
      | add e => exact ih.add e
      | build supply => exact ih.build supply

-- Whatever is asked of a builder, and whichever builds fail on the way, every expression
-- that was added is, once and in its place, a child of a block that was built or still
-- pending. A build fails for the first clash among the variables declared since the last
-- one, or else for want of a pending expression.
theorem serveAll_conserves (requests : List Request) :
    (serveAll requests).events.flatMap Event.children ++ (serveAll requests).builder.children =
      requests.filterMap Request.child? ∧
    ((serveAll requests).builder.isEmpty = true ↔ ∀ e, ¬ Pending (serveAll requests).events e) ∧
    ∀ before result after, (serveAll requests).events = before ++ .built result :: after →
      Explained before result := by
  have h := serveAll_accounts requests
  refine ⟨h.conserved, ?_, h.explained⟩
  rw [← h.nothing_pending_iff, isEmpty, List.isEmpty_iff]

end Session

end TreeLang.BlockBuilder
