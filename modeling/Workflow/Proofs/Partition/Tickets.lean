/-
Where tickets are.

A ticket that was handed out for a request is in one place: with the request while it waits, with
the response once that has come, and with the client once that has taken it.  The router knows the
first two places only, so what was taken is a list beside it.

Registering a request adds a ticket; delivering and taking a response move one from place to place
(`Accounted.deliver`, `Accounted.take`), and what is dropped is in no place any more.  So no ticket
is ever in two places, which is why no request has two responses.
-/
import Mathlib.Data.List.Nodup
import Mathlib.Data.List.Perm.Basic
import Workflow.Proofs.Partition.Response

namespace Workflow

/-- Where keys are different, the entries under other keys are those before and after the one. -/
theorem filter_key_ne {α β : Type} [BEq α] [LawfulBEq α] {before after : List (α × β)} {key : α}
    {value : β} (h : ((before ++ (key, value) :: after).map Prod.fst).Nodup) :
    (before ++ (key, value) :: after).filter (fun entry => entry.1 != key) = before ++ after := by
  rw [List.map_append, List.map_cons, List.nodup_middle, List.nodup_cons, ← List.map_append] at h
  have hothers : ∀ entry ∈ before ++ after, (entry.1 != key) = true := fun entry he =>
    bne_iff_ne.mpr fun heq => h.1 (List.mem_map.mpr ⟨entry, he, heq⟩)
  rw [List.filter_append, List.filter_cons, if_neg (by simp), ← List.filter_append,
    List.filter_eq_self.mpr hothers]

namespace ResponseRouter

variable {router : ResponseRouter} {received : List (Nat × Response)}

/-- The responses that have come, whether they were taken or not. -/
def answers (router : ResponseRouter) (received : List (Nat × Response)) : List (Nat × Response) :=
  router.delivered ++ received

/-- What a client receives that asks for the response of a ticket. -/
def taken (router : ResponseRouter) (ticket : Nat) : List (Nat × Response) :=
  match (router.take ticket).1 with
  | .response response => [(ticket, response)]
  | _ => []

/-- The tickets of the requests that wait and of the responses that have come. -/
def tickets (router : ResponseRouter) (received : List (Nat × Response)) : List Nat :=
  router.waiting.map Prod.snd ++ (router.answers received).map Prod.fst

/-- Every ticket is in one place. -/
structure Accounted (router : ResponseRouter) (received : List (Nat × Response)) : Prop where
  /-- Requests that wait have different names. -/
  names : (router.waiting.map Prod.fst).Nodup
  /-- Tickets were handed out. -/
  issued : ∀ ticket ∈ router.tickets received, ticket < router.issued
  /-- No ticket is in two places. -/
  once : (router.tickets received).Nodup

/-- Tickets that move from place to place are still in one. -/
theorem Accounted.of_perm {later : ResponseRouter} {taken : List (Nat × Response)}
    (h : Accounted router received) (hwaiting : later.waiting.Sublist router.waiting)
    (hissued : later.issued = router.issued)
    (hperm : (later.tickets taken).Perm (router.tickets received)) : Accounted later taken where
  names := h.names.sublist (hwaiting.map _)
  issued := fun ticket ht => by
    rw [hissued]
    exact h.issued ticket (hperm.mem_iff.mp ht)
  once := hperm.nodup_iff.mpr h.once

theorem Accounted.spent (h : Accounted router received) : Accounted router.spent received :=
  ⟨h.names, fun ticket ht => Nat.lt_succ_of_lt (h.issued ticket ht), h.once⟩

/-- The ticket of a request that is registered is new. -/
theorem Accounted.awaiting (h : Accounted router received) {correlation : Correlation}
    (hfree : router.waiting.lookup correlation = none) :
    Accounted (router.awaiting correlation) received := by
  refine ⟨List.nodup_cons.mpr ⟨fun hmem => ?_, h.names⟩, fun ticket ht => ?_,
    List.nodup_cons.mpr ⟨fun hmem => absurd (h.issued _ hmem) (Nat.lt_irrefl _), h.once⟩⟩
  · obtain ⟨entry, he, hname⟩ := List.mem_map.mp hmem
    have hother := List.lookup_eq_none_iff.mp hfree entry he
    simp [hname] at hother
  · rcases List.mem_cons.mp ht with hself | hold
    · rw [hself]
      exact Nat.lt_succ_self _
    · exact Nat.lt_succ_of_lt (h.issued ticket hold)

/-- **A response moves the ticket of the request that waits for it.** -/
theorem Accounted.deliver_cases (h : Accounted router received) (response : Response) :
    (router.waiting.lookup response.correlation = none ∧ router.deliver response = router) ∨
      ∃ before ticket after, router.waiting = before ++ (response.correlation, ticket) :: after ∧
        router.deliver response =
          { router with
            waiting := before ++ after, delivered := (ticket, response) :: router.delivered } := by
  unfold deliver unregister
  cases hlookup : router.waiting.lookup response.correlation with
  | none => exact .inl ⟨rfl, rfl⟩
  | some ticket =>
      obtain ⟨before, after, hsplit, -⟩ := List.lookup_eq_some_iff.mp hlookup
      refine .inr ⟨before, ticket, after, hsplit, ?_⟩
      have hnames := h.names
      rw [hsplit] at hnames
      dsimp only
      rw [hsplit, filter_key_ne hnames]

theorem Accounted.deliver (h : Accounted router received) (response : Response) :
    Accounted (router.deliver response) received ∧
      ((router.deliver response).tickets received).Perm (router.tickets received) := by
  rcases h.deliver_cases response with ⟨-, heq⟩ | ⟨before, ticket, after, hsplit, heq⟩
  · rw [heq]
    exact ⟨h, .refl _⟩
  · have hperm : ((router.deliver response).tickets received).Perm (router.tickets received) := by
      rw [heq]
      unfold tickets answers
      rw [hsplit]
      simp only [List.cons_append, List.map_append, List.map_cons, List.append_assoc]
      exact List.Perm.append_left _ List.perm_middle
    refine ⟨h.of_perm ?_ (by rw [heq]) hperm, hperm⟩
    rw [heq, hsplit]
    exact List.Sublist.append_left (List.sublist_cons_self _ _) _

/-- **Taking a response moves its ticket to the client.** -/
theorem Accounted.take_cases (h : Accounted router received) (ticket : Nat) :
    (router.taken ticket = [] ∧ (router.take ticket).2 = router) ∨
      ∃ before response after, router.delivered = before ++ (ticket, response) :: after ∧
        router.taken ticket = [(ticket, response)] ∧
        (router.take ticket).2 = { router with delivered := before ++ after } := by
  unfold taken take
  cases hlookup : router.delivered.lookup ticket with
  | none =>
      refine .inl ⟨?_, rfl⟩
      cases router.waiting.any fun entry => entry.2 == ticket <;> rfl
  | some response =>
      obtain ⟨before, after, hsplit, -⟩ := List.lookup_eq_some_iff.mp hlookup
      refine .inr ⟨before, response, after, hsplit, rfl, ?_⟩
      have honce := h.once
      unfold tickets answers at honce
      rw [List.map_append, List.nodup_append, List.nodup_append] at honce
      have hdelivered := honce.2.1.1
      rw [hsplit] at hdelivered
      dsimp only
      rw [hsplit, filter_key_ne hdelivered]

theorem Accounted.take (h : Accounted router received) (ticket : Nat) :
    Accounted (router.take ticket).2 (router.taken ticket ++ received) ∧
      ((router.take ticket).2.answers (router.taken ticket ++ received)).Perm
        (router.answers received) ∧ (router.take ticket).2.waiting = router.waiting := by
  rcases h.take_cases ticket with ⟨hnone, heq⟩ | ⟨before, response, after, hsplit, hsome, heq⟩
  · rw [hnone, heq]
    exact ⟨h, .refl _, rfl⟩
  · have hanswers : ((router.take ticket).2.answers (router.taken ticket ++ received)).Perm
        (router.answers received) := by
      unfold answers
      rw [heq, hsome, hsplit]
      simp only [List.append_assoc, List.cons_append]
      exact List.Perm.append_left _ List.perm_middle
    refine ⟨h.of_perm ?_ ?_ ?_, hanswers, ?_⟩
    · rw [heq]
    · rw [heq]
    · unfold tickets
      rw [heq]
      rw [heq] at hanswers
      exact List.Perm.append_left _ (hanswers.map _)
    · rw [heq]

/-- What is dropped is in no place any more. -/
theorem Accounted.dropWaiting (h : Accounted router received) :
    Accounted router.dropWaiting [] := by
  have hfewer : (router.dropWaiting.tickets []).Sublist (router.tickets received) := by
    unfold tickets answers
    rw [List.append_nil, List.map_append]
    exact List.Sublist.trans (List.sublist_append_left _ _) (List.sublist_append_right _ _)
  exact ⟨List.nodup_nil, fun ticket ht => h.issued ticket (hfewer.subset ht),
    h.once.sublist hfewer⟩

end ResponseRouter

end Workflow
