import Wgx.Socks5.Dns

/-!
# The connections that share a query

Connections that ask for the same domain wait for one query.  Each of them is to be given what the
resolver says about the domain, whatever the others do.

* `courseOf` is what has happened to one connection, `AtRest` and `Waiting` what may have;
* `WaitInv` is the invariant: who is in the list of a query waits for it, who is in none is at rest;
* `Only`: what is done to one connection leaves the others alone;
* a query without waiters is canceled, but found until the resolver has called back; `NoLateJoin`
  says that nobody joins it then, `coalesced` is the result.
-/

namespace Wgx

/-! ### The course of a connection -/

/-- The connection whose waiting an entry of the record is about. -/
def DnsRecord.about : DnsRecord → Option ℕ
  | .waiting sc _ | .complete sc _ _ | .closed sc => some sc
  | _ => none

/-- What has happened to a connection. -/
def courseOf (sc : ℕ) (trace : List DnsRecord) : List DnsRecord :=
  trace.filter fun e => e.about = some sc

theorem courseOf_append_of_ne {sc : ℕ} {new : List DnsRecord} (h : ∀ e ∈ new, e.about ≠ some sc)
    (trace : List DnsRecord) : courseOf sc (trace ++ new) = courseOf sc trace := by
  have hnone : new.filter (fun e => e.about = some sc) = [] :=
    List.filter_eq_nil_iff.2 fun e he => by simpa using h e he
  rw [courseOf, List.filter_append, hnone, List.append_nil]
  rfl

theorem courseOf_concat {sc : ℕ} {e : DnsRecord} (h : e.about = some sc)
    (trace : List DnsRecord) : courseOf sc (trace ++ [e]) = courseOf sc trace ++ [e] := by
  simp [courseOf, h]

/-- The resolver's answer about the domain, by a result that is no cancellation. -/
def Given (trace : List DnsRecord) (domain : DomainName) (answer : Answer) : Prop :=
  ∃ q result now, .answered q result now ∈ trace ∧ q.domain = domain ∧
    answer = q.answer result ∧ ¬ q.Cancels result

/-- What may have happened to an open connection that does not wait: nothing yet, its domain was in
the cache, or it has waited and was given the resolver's answer. -/
inductive Past (trace : List DnsRecord) (sc : ℕ) : List DnsRecord → Prop
  | fresh : Past trace sc []
  | found (domain : DomainName) (answer : Answer) : Past trace sc [.complete sc domain answer]
  | served (domain : DomainName) (answer : Answer) (h : Given trace domain answer) :
    Past trace sc [.waiting sc domain, .complete sc domain answer]

/-- The connection waits for the query at `addr` about `domain`, and nothing else has happened. -/
def Waiting (d : Dns) (sc addr : ℕ) (domain : DomainName) : Prop :=
  d.conns sc = ⟨true, false, some addr⟩ ∧ courseOf sc d.trace = [.waiting sc domain]

/-- The connection does not wait: it is open, or was closed last. -/
def AtRest (d : Dns) (sc : ℕ) : Prop :=
  (d.conns sc).resolveReq = none ∧
    if (d.conns sc).closed then
      ∃ past, courseOf sc d.trace = past ++ [.closed sc] ∧
        (Past d.trace sc past ∨ ∃ domain, past = [.waiting sc domain])
    else
      Past d.trace sc (courseOf sc d.trace) ∧
        ((d.conns sc).asked = false → courseOf sc d.trace = [])

/-- Who is in the list of a query waits for it, in no other place of a list; who is in no list is at
rest, but for those `away`. -/
structure WaitInv (away : List ℕ) (d : Dns) : Prop where
  addrs : (d.queries.map DnsQuery.addr).Nodup
  nodup : ∀ q ∈ d.queries, q.waiters.Nodup
  canceled : ∀ q ∈ d.queries, q.canceled = true → q.waiters = []
  linked : ∀ q ∈ d.queries, ∀ sc ∈ q.waiters, sc ∉ away ∧ Waiting d sc q.addr q.domain
  rest : ∀ sc, sc ∉ away → (∀ q ∈ d.queries, sc ∉ q.waiters) → AtRest d sc

/-! ### What is done to one connection -/

/-- Nothing happens to other connections than `sc`. -/
structure Others (sc : ℕ) (d d' : Dns) : Prop where
  shuttingDown : d'.shuttingDown = d.shuttingDown
  conns : ∀ sc', sc' ≠ sc → d'.conns sc' = d.conns sc'
  trace : ∃ new, d'.trace = d.trace ++ new ∧ ∀ e ∈ new, ∀ sc', sc' ≠ sc → e.about ≠ some sc'

/-- Nothing happens to the queries either. -/
structure Only (sc : ℕ) (d d' : Dns) : Prop extends Others sc d d' where
  queries : d'.queries = d.queries

section Only

variable {sc : ℕ} {d d' d'' : Dns}

theorem Only.refl (sc : ℕ) (d : Dns) : Only sc d d :=
  ⟨⟨rfl, fun _ _ => rfl, [], by simp, by simp⟩, rfl⟩

theorem Others.trans (h : Others sc d d') (h' : Others sc d' d'') : Others sc d d'' where
  shuttingDown := h'.shuttingDown.trans h.shuttingDown
  conns sc' hne := (h'.conns sc' hne).trans (h.conns sc' hne)
  trace := by
    obtain ⟨new, hnew, hall⟩ := h.trace
    obtain ⟨new', hnew', hall'⟩ := h'.trace
    refine ⟨new ++ new', by rw [hnew', hnew, List.append_assoc], ?_⟩
    exact List.forall_mem_append.2 ⟨hall, hall'⟩

theorem Only.trans (h : Only sc d d') (h' : Only sc d' d'') : Only sc d d'' :=
  ⟨h.toOthers.trans h'.toOthers, h'.queries.trans h.queries⟩

theorem only_log {e : DnsRecord} (he : e.about = some sc ∨ e.about = none) (d : Dns) :
    Only sc d (d.log e) := by
  refine ⟨⟨rfl, fun _ _ => rfl, [e], rfl, fun e' hmem sc' hne => ?_⟩, rfl⟩
  rw [List.mem_singleton.1 hmem]
  rcases he with he | he <;> rw [he]
  · exact fun heq => hne (Option.some.inj heq).symm
  · nofun

theorem only_updateConn (d : Dns) (sc : ℕ) (f : DnsConn → DnsConn) :
    Only sc d (d.updateConn sc f) :=
  ⟨⟨rfl, fun _ hne => Function.update_of_ne hne .., [], by simp [Dns.updateConn], by simp⟩, rfl⟩

theorem Others.courseOf (h : Others sc d d') {sc' : ℕ} (hne : sc' ≠ sc) :
    courseOf sc' d'.trace = courseOf sc' d.trace := by
  obtain ⟨new, hnew, hall⟩ := h.trace
  rw [hnew, courseOf_append_of_ne fun e he => hall e he sc' hne]

theorem Given.others {domain : DomainName} {answer : Answer} (h : Given d.trace domain answer)
    (hothers : Others sc d d') : Given d'.trace domain answer := by
  obtain ⟨q, result, now, hmem, hrest⟩ := h
  obtain ⟨new, hnew, -⟩ := hothers.trace
  exact ⟨q, result, now, by rw [hnew]; exact List.mem_append_left _ hmem, hrest⟩

theorem Past.others {sc' : ℕ} {past : List DnsRecord} (h : Past d.trace sc' past)
    (hothers : Others sc d d') : Past d'.trace sc' past := by
  cases h with
  | fresh => exact .fresh
  | found domain answer => exact .found domain answer
  | served domain answer hgiven => exact .served domain answer (hgiven.others hothers)

theorem Waiting.others {sc' addr : ℕ} {domain : DomainName} (h : Waiting d sc' addr domain)
    (hothers : Others sc d d') (hne : sc' ≠ sc) : Waiting d' sc' addr domain :=
  ⟨(hothers.conns sc' hne).trans h.1, (hothers.courseOf hne).trans h.2⟩

theorem AtRest.others {sc' : ℕ} (h : AtRest d sc') (hothers : Others sc d d') (hne : sc' ≠ sc) :
    AtRest d' sc' := by
  rw [AtRest, hothers.conns sc' hne, hothers.courseOf hne]
  refine ⟨h.1, ?_⟩
  have hpast := h.2
  split_ifs at hpast ⊢
  · obtain ⟨past, heq, hor⟩ := hpast
    exact ⟨past, heq, hor.imp_left fun hp => hp.others hothers⟩
  · exact ⟨hpast.1.others hothers, hpast.2⟩

/-- Whatever is done to a connection that is away. -/
theorem WaitInv.only {away : List ℕ} (h : WaitInv away d) (hsc : sc ∈ away)
    (honly : Only sc d d') : WaitInv away d' where
  addrs := by
    rw [honly.queries]
    exact h.addrs
  nodup := by
    rw [honly.queries]
    exact h.nodup
  canceled := by
    rw [honly.queries]
    exact h.canceled
  linked := by
    rw [honly.queries]
    intro q hq sc' hmem
    obtain ⟨hhome, hwaiting⟩ := h.linked q hq sc' hmem
    exact ⟨hhome, hwaiting.others honly.toOthers fun heq => hhome (heq ▸ hsc)⟩
  rest := by
    rw [honly.queries]
    intro sc' hhome hidle
    exact (h.rest sc' hhome hidle).others honly.toOthers fun heq => hhome (heq ▸ hsc)

/-- A connection that is at rest comes back. -/
theorem WaitInv.settle {away : List ℕ} (h : WaitInv (sc :: away) d) (hrest : AtRest d sc) :
    WaitInv away d := by
  refine ⟨h.addrs, h.nodup, h.canceled, fun q hq sc' hmem => ?_, fun sc' hhome hidle => ?_⟩
  · obtain ⟨hhome, hwaiting⟩ := h.linked q hq sc' hmem
    exact ⟨fun hmem' => hhome (List.mem_cons_of_mem _ hmem'), hwaiting⟩
  · by_cases heq : sc' = sc
    · exact heq ▸ hrest
    · exact h.rest sc' (by simp [heq, hhome]) hidle

/-- A connection in no list goes away. -/
theorem WaitInv.leave {away : List ℕ} (h : WaitInv away d)
    (hidle : ∀ q ∈ d.queries, sc ∉ q.waiters) : WaitInv (sc :: away) d := by
  refine ⟨h.addrs, h.nodup, h.canceled, fun q hq sc' hmem => ?_, fun sc' hhome hidle' => ?_⟩
  · obtain ⟨hhome, hwaiting⟩ := h.linked q hq sc' hmem
    refine ⟨?_, hwaiting⟩
    rw [List.mem_cons, not_or]
    exact ⟨fun heq => hidle q hq (heq ▸ hmem), hhome⟩
  · exact h.rest sc' (fun hmem => hhome (List.mem_cons_of_mem _ hmem)) hidle'

variable (env : DnsEnv)

/-- An open connection that does not wait is closed. -/
theorem connClose_idle {asked : Bool} (hconn : d.conns sc = ⟨asked, false, none⟩)
    (hpast : Past d.trace sc (courseOf sc d.trace) ∨
      ∃ domain, courseOf sc d.trace = [.waiting sc domain]) :
    Only sc d (d.connClose env sc) ∧ AtRest (d.connClose env sc) sc := by
  have hlog := @only_log sc (.closed sc) (.inl rfl) d
  have hdo : d.connClose env sc =
      (d.log (.closed sc)).updateConn sc fun conn => { conn with closed := true } := by
    unfold Dns.connClose
    rw [hconn, if_neg (by simp)]
    simp [Dns.updateConn, Dns.log, hconn]
  rw [hdo]
  have honly := hlog.trans (only_updateConn _ sc fun conn => { conn with closed := true })
  refine ⟨honly, ?_⟩
  have hconn' : ((d.log (.closed sc)).updateConn sc fun conn => { conn with closed := true }).conns sc =
      ⟨asked, true, none⟩ := by
    simp [Dns.updateConn, Dns.log, hconn]
  rw [AtRest, hconn']
  refine ⟨rfl, ?_⟩
  rw [if_pos rfl]
  exact ⟨courseOf sc d.trace, courseOf_concat rfl _, hpast.imp_left fun hp => hp.others honly.toOthers⟩

/-- A connection that has asked and does not wait is given an answer. -/
theorem resolveComplete_idle (hconn : d.conns sc = ⟨true, false, none⟩) {domain : DomainName}
    {answer : Answer}
    (hpast : Past d.trace sc (courseOf sc d.trace ++ [.complete sc domain answer])) :
    Only sc d (d.resolveComplete env sc domain answer) ∧
      AtRest (d.resolveComplete env sc domain answer) sc := by
  have hlog := @only_log sc (.complete sc domain answer) (.inl rfl) d
  -- what holds once the answer is given, and whatever the cache holds then
  have hgiven : ∀ d', Only sc d d' → d'.conns sc = d.conns sc →
      courseOf sc d'.trace = courseOf sc d.trace ++ [.complete sc domain answer] →
      AtRest d' sc ∧ Only sc d (d'.connClose env sc) ∧ AtRest (d'.connClose env sc) sc := by
    intro d' honly hsame hcourse
    have hpast' : Past d'.trace sc (courseOf sc d'.trace) := by
      rw [hcourse]
      exact hpast.others honly.toOthers
    obtain ⟨hclose, hrest⟩ := connClose_idle env (hsame.trans hconn) (.inl hpast')
    refine ⟨?_, honly.trans hclose, hrest⟩
    rw [AtRest, hsame, hconn]
    exact ⟨rfl, by rw [if_neg (by simp)]; exact ⟨hpast', nofun⟩⟩
  have hcourse : courseOf sc (d.log (.complete sc domain answer)).trace =
      courseOf sc d.trace ++ [.complete sc domain answer] := courseOf_concat rfl _
  unfold Dns.resolveComplete
  rw [hconn, if_neg (by simp)]
  simp only
  by_cases hfail : answer.status < 0 ∨ answer.family = .unspec
  · rw [if_pos hfail]
    exact (hgiven _ hlog rfl hcourse).2
  rw [if_neg hfail]
  generalize hd1 : (if answer.family = .inet then
    (d.log (.complete sc domain answer)).cacheStore env domain answer.ip
    else d.log (.complete sc domain answer)) = d1
  have h1 : Only sc d d1 ∧ d1.conns sc = d.conns sc ∧
      courseOf sc d1.trace = courseOf sc d.trace ++ [.complete sc domain answer] := by
    rw [← hd1]
    unfold Dns.cacheStore
    split_ifs
    · exact ⟨hlog.trans ⟨⟨rfl, fun _ _ => rfl, [], by simp, by simp⟩, rfl⟩, rfl, hcourse⟩
    · exact ⟨hlog, rfl, hcourse⟩
    · exact ⟨hlog, rfl, hcourse⟩
  obtain ⟨hrest, hclose⟩ := hgiven d1 h1.1 h1.2.1 h1.2.2
  split_ifs
  · exact ⟨h1.1, hrest⟩
  · exact hclose

end Only

/-! ### The resolver calls back -/

section Finish

variable {d d' : Dns} (env : DnsEnv) {domain : DomainName} {answer : Answer}

/-- A connection that was taken out of the list of a query is given its answer, or closed. -/
theorem waitInv_finishWaiter {sc : ℕ} {away : List ℕ} (h : WaitInv (sc :: away) d) {addr : ℕ}
    (hwaiting : Waiting d sc addr domain)
    (hgiven : d.shuttingDown = true ∨ Given d.trace domain answer) :
    WaitInv away (d.finishWaiter env domain answer sc) ∧
      Only sc d (d.finishWaiter env domain answer sc) := by
  obtain ⟨hconn, hcourse⟩ := hwaiting
  unfold Dns.finishWaiter
  simp only
  generalize hd1 : d.updateConn sc (fun conn => { conn with resolveReq := none }) = d1
  have honly : Only sc d d1 := hd1 ▸ only_updateConn d sc _
  have hconn1 : d1.conns sc = ⟨true, false, none⟩ := by
    rw [← hd1]
    simp [Dns.updateConn, hconn]
  have htrace1 : d1.trace = d.trace := by rw [← hd1]; rfl
  have hcourse1 : courseOf sc d1.trace = [.waiting sc domain] := by rw [htrace1, hcourse]
  rw [honly.shuttingDown]
  split_ifs with hdown
  · obtain ⟨hclose, hrest⟩ := connClose_idle env hconn1 (.inr ⟨domain, hcourse1⟩)
    have hboth := honly.trans hclose
    exact ⟨(h.only List.mem_cons_self hboth).settle hrest, hboth⟩
  · have hpast : Past d1.trace sc (courseOf sc d1.trace ++ [.complete sc domain answer]) := by
      rw [hcourse1]
      exact .served domain answer ((hgiven.resolve_left hdown).others honly.toOthers)
    obtain ⟨hdone, hrest⟩ := resolveComplete_idle env hconn1 hpast
    have hboth := honly.trans hdone
    exact ⟨(h.only List.mem_cons_self hboth).settle hrest, hboth⟩

/-- All connections that were taken out of the list of a query. -/
theorem waitInv_finishWaiters {addr : ℕ} (waiters : List ℕ) (h : WaitInv waiters d)
    (hnodup : waiters.Nodup) (hwaiting : ∀ sc ∈ waiters, Waiting d sc addr domain)
    (hgiven : waiters = [] ∨ d.shuttingDown = true ∨ Given d.trace domain answer) :
    WaitInv [] (waiters.foldl (Dns.finishWaiter env domain answer) d) ∧
      (waiters.foldl (Dns.finishWaiter env domain answer) d).shuttingDown = d.shuttingDown := by
  induction waiters generalizing d with
  | nil => exact ⟨h, rfl⟩
  | cons sc waiters ih =>
    obtain ⟨hfresh, hnodup⟩ := List.nodup_cons.1 hnodup
    obtain ⟨hinv, honly⟩ := waitInv_finishWaiter env h
      (hwaiting sc List.mem_cons_self) (hgiven.resolve_left nofun)
    obtain ⟨hrun, hdown⟩ := ih hinv hnodup
      (fun sc' hmem => (hwaiting sc' (List.mem_cons_of_mem _ hmem)).others honly.toOthers
        fun heq => hfresh (heq ▸ hmem))
      (.inr ((hgiven.resolve_left nofun).imp (fun hdown => honly.shuttingDown.trans hdown)
        fun hgiven => hgiven.others honly.toOthers))
    exact ⟨hrun, hdown.trans honly.shuttingDown⟩

/-- The queries that are left when one is unlinked. -/
theorem mem_queryUnlink {q p : DnsQuery}
    (hfind : d.queries.find? (fun p => p.addr = q.addr) = some q)
    (haddrs : (d.queries.map DnsQuery.addr).Nodup) :
    p ∈ (d.queryUnlink q.addr).queries ↔ p ∈ d.queries ∧ p.addr ≠ q.addr := by
  refine ⟨fun hmem => ⟨List.mem_of_mem_eraseP hmem, fun heq => ?_⟩, fun ⟨hmem, hne⟩ => ?_⟩
  · have hkey : p.addr ∈ (d.queryUnlink q.addr).queries.map DnsQuery.addr :=
      List.mem_map_of_mem hmem
    rw [heq] at hkey
    exact not_mem_map_eraseP hfind haddrs hkey
  · exact (List.mem_eraseP_of_neg (by simpa using hne)).2 hmem

/-- **The resolver's answer is given to those who wait for it**, and to nobody else. -/
theorem waitInv_queryFinish (h : WaitInv [] d) {q : DnsQuery}
    (hfind : d.queries.find? (fun p => p.addr = q.addr) = some q) {result : ResolverResult}
    (hreal : q.canceled = true ∨ d.shuttingDown = true ∨ ¬ q.Cancels result) :
    WaitInv [] (d.queryFinish env q result) ∧
      (d.queryFinish env q result).shuttingDown = d.shuttingDown := by
  have hq : q ∈ d.queries := List.mem_of_find?_eq_some hfind
  unfold Dns.queryFinish
  simp only
  generalize hd1 : (d.log (.answered q result env.now)).queryUnlink q.addr = d1
  have htrace1 : d1.trace = d.trace ++ [.answered q result env.now] := by rw [← hd1]; rfl
  have hconns1 : d1.conns = d.conns := by rw [← hd1]; rfl
  have hdown1 : d1.shuttingDown = d.shuttingDown := by rw [← hd1]; rfl
  have hmem1 : ∀ {p}, p ∈ d1.queries ↔ p ∈ d.queries ∧ p.addr ≠ q.addr := by
    intro p
    rw [← hd1]
    exact mem_queryUnlink (show (d.log (.answered q result env.now)).queries.find? _ = some q from hfind)
      h.addrs
  have hgiven1 : ∀ {dom ans}, Given d.trace dom ans → Given d1.trace dom ans := by
    rintro dom ans ⟨q', result', now, hmem, hrest⟩
    rw [htrace1]
    exact ⟨q', result', now, List.mem_append_left _ hmem, hrest⟩
  have hcourse1 : ∀ sc, courseOf sc d1.trace = courseOf sc d.trace := by
    intro sc
    rw [htrace1]
    exact courseOf_append_of_ne (by simp [DnsRecord.about]) _
  have hpast1 : ∀ {sc past}, Past d.trace sc past → Past d1.trace sc past := by
    intro sc past hpast
    cases hpast with
    | fresh => exact .fresh
    | found dom ans => exact .found dom ans
    | served dom ans hgiven => exact .served dom ans (hgiven1 hgiven)
  have hwaiting1 : ∀ {sc addr dom}, Waiting d sc addr dom → Waiting d1 sc addr dom := by
    intro sc addr dom hwaiting
    rw [Waiting, hconns1, hcourse1]
    exact hwaiting
  -- the waiters of the query are in no list any more
  have hinv1 : WaitInv q.waiters d1 := by
    refine ⟨?_, fun p hp => h.nodup p (hmem1.1 hp).1, fun p hp => h.canceled p (hmem1.1 hp).1,
      fun p hp sc hmem => ?_, fun sc hhome hidle => ?_⟩
    · rw [← hd1]
      exact h.addrs.sublist (List.eraseP_sublist.map _)
    · obtain ⟨hpq, hne⟩ := hmem1.1 hp
      obtain ⟨-, hwaiting⟩ := h.linked p hpq sc hmem
      refine ⟨fun hmem' => hne ?_, hwaiting1 hwaiting⟩
      have hconn := (h.linked q hq sc hmem').2.1
      rw [hwaiting.1] at hconn
      exact Option.some.inj (congrArg DnsConn.resolveReq hconn)
    · have hrest : AtRest d sc := by
        refine h.rest sc (by simp) fun p hp hmem => ?_
        by_cases haddr : p.addr = q.addr
        · have hpq : p = q := List.inj_on_of_nodup_map h.addrs hp hq haddr
          exact hhome (hpq ▸ hmem)
        · exact hidle p (hmem1.2 ⟨hp, haddr⟩) hmem
      rw [AtRest, hconns1, hcourse1]
      refine ⟨hrest.1, ?_⟩
      have hpast := hrest.2
      split_ifs at hpast ⊢
      · obtain ⟨past, heq, hor⟩ := hpast
        exact ⟨past, heq, hor.imp_left hpast1⟩
      · exact ⟨hpast1 hpast.1, hpast.2⟩
  generalize hd2 : (if 0 ≤ (q.answer result).status ∧ (q.answer result).family = .inet then
    d1.cacheStore env q.domain (q.answer result).ip else d1) = d2
  have hstored : d2.queries = d1.queries ∧ d2.conns = d1.conns ∧ d2.trace = d1.trace ∧
      d2.shuttingDown = d1.shuttingDown := by
    rw [← hd2]
    unfold Dns.cacheStore
    split_ifs <;> exact ⟨rfl, rfl, rfl, rfl⟩
  obtain ⟨hqueries2, hconns2, htrace2, hdown2⟩ := hstored
  have hinv2 : WaitInv q.waiters d2 := by
    obtain ⟨haddrs, hnodup, hcanceled, hlinked, hrest⟩ := hinv1
    constructor <;> rw [hqueries2]
    · exact haddrs
    · exact hnodup
    · exact hcanceled
    · intro p hp sc hmem
      rw [Waiting, hconns2, htrace2]
      exact hlinked p hp sc hmem
    · intro sc hhome hidle
      rw [AtRest, hconns2, htrace2]
      exact hrest sc hhome hidle
  have hgiven : q.waiters = [] ∨ d2.shuttingDown = true ∨
      Given d2.trace q.domain (q.answer result) := by
    rw [hdown2, hdown1, htrace2, htrace1]
    refine hreal.imp (h.canceled q hq) (Or.imp_right fun hno => ?_)
    exact ⟨q, result, env.now, by simp, rfl, rfl, hno⟩
  obtain ⟨hrun, hdown⟩ := waitInv_finishWaiters env q.waiters hinv2 (h.nodup q hq)
    (fun sc hmem => by
      rw [Waiting, hconns2, htrace2]
      exact hwaiting1 (h.linked q hq sc hmem).2) hgiven
  exact ⟨hrun, hdown.trans (hdown2.trans hdown1)⟩

theorem waitInv_resolverCallback (h : WaitInv [] d) (addr : ℕ) {result : ResolverResult}
    (hreal : ∀ q ∈ d.queries, q.addr = addr →
      q.canceled = true ∨ d.shuttingDown = true ∨ ¬ q.Cancels result) :
    WaitInv [] (d.resolverCallback env addr result) ∧
      (d.resolverCallback env addr result).shuttingDown = d.shuttingDown := by
  unfold Dns.resolverCallback
  cases hfind : d.queries.find? fun q => q.addr = addr with
  | none => exact ⟨h, rfl⟩
  | some q =>
    have haddr : q.addr = addr := by simpa using List.find?_some hfind
    refine waitInv_queryFinish env h ?_ (hreal q (List.mem_of_find?_eq_some hfind) haddr)
    rw [haddr]
    exact hfind

/-- The server stops: who waits is closed. -/
theorem waitInv_stop (h : WaitInv [] d) : WaitInv [] (d.stop env) := by
  unfold Dns.stop
  split_ifs
  · have hcalls : ∀ (addrs : List ℕ) (d : Dns), WaitInv [] d → d.shuttingDown = true →
        WaitInv [] (addrs.foldl
          (fun d addr => d.resolverCallback env addr ⟨aresEcancelled, none⟩) d) := by
      intro addrs
      induction addrs with
      | nil => exact fun _ h _ => h
      | cons addr addrs ih =>
        intro d h hdown
        obtain ⟨hinv, hdown'⟩ :=
          waitInv_resolverCallback env h addr fun _ _ _ => .inr (.inl hdown)
        exact ih _ hinv (hdown'.trans hdown)
    have hinv := hcalls ((d.queries.filter DnsQuery.cares).map DnsQuery.addr)
      { d with shuttingDown := true } ⟨h.addrs, h.nodup, h.canceled, h.linked, h.rest⟩ rfl
    exact ⟨hinv.addrs, hinv.nodup, hinv.canceled, hinv.linked, hinv.rest⟩
  · exact h

end Finish

/-! ### Connections come and go -/

section Members

variable {d : Dns} (env : DnsEnv) {sc : ℕ}

/-- A connection that does not wait is in no list. -/
theorem WaitInv.idle {away : List ℕ} (h : WaitInv away d) (hnone : (d.conns sc).resolveReq = none) :
    ∀ q ∈ d.queries, sc ∉ q.waiters := by
  intro q hq hmem
  have hconn := (h.linked q hq sc hmem).2.1
  rw [hconn] at hnone
  cases hnone

/-- A waiter is taken out of the list of its query. -/
theorem mem_dropWaiter {q : DnsQuery} (hnodup : q.waiters.Nodup) {sc' : ℕ} :
    sc' ∈ (Dns.dropWaiter env sc q).waiters ↔ sc' ≠ sc ∧ sc' ∈ q.waiters :=
  hnodup.mem_erase_iff

/-- Whoever is closed, the others wait as before. -/
theorem waitInv_connClose (h : WaitInv [] d) (sc : ℕ) : WaitInv [] (d.connClose env sc) := by
  by_cases hclosed : (d.conns sc).closed = true
  · have hdo : d.connClose env sc = d := if_pos hclosed
    rw [hdo]
    exact h
  have hopen : (d.conns sc).closed = false := by simpa using hclosed
  cases hreq : (d.conns sc).resolveReq with
  | none =>
    have hrest := h.rest sc (by simp) (h.idle hreq)
    have hpast := hrest.2
    rw [if_neg hclosed] at hpast
    have hconn : d.conns sc = ⟨(d.conns sc).asked, false, none⟩ := by rw [← hopen, ← hreq]
    obtain ⟨honly, hrest'⟩ := connClose_idle env hconn (.inl hpast.1)
    exact ((h.leave (h.idle hreq)).only List.mem_cons_self honly).settle hrest'
  | some addr =>
    -- the connection is in the list of the query that it waits for
    obtain ⟨q, hq, hmem⟩ : ∃ q ∈ d.queries, sc ∈ q.waiters := by
      by_contra hno
      push Not at hno
      have hrest := (h.rest sc (by simp) hno).1
      rw [hreq] at hrest
      cases hrest
    obtain ⟨-, hconn, hcourse⟩ := h.linked q hq sc hmem
    generalize hd1 : d.connClose env sc = d1
    have hdo : d1 = ((d.log (.closed sc)).updateConn sc
        fun conn => { conn with closed := true }).queryRemoveWaiter env q.addr sc := by
      rw [← hd1]
      unfold Dns.connClose
      rw [if_neg hclosed]
      simp [Dns.updateConn, Dns.log, hconn]
    have hqueries : d1.queries =
        d.queries.map fun p => if p.addr = q.addr then Dns.dropWaiter env sc p else p := by
      rw [hdo]
      rfl
    have hconn1 : d1.conns sc = ⟨true, true, none⟩ := by
      rw [hdo]
      simp [Dns.queryRemoveWaiter, Dns.updateConn, Dns.log, hconn]
    have hothers : Others sc d d1 := by
      refine ⟨by rw [hdo]; rfl, fun sc' hne => ?_, [.closed sc], by rw [hdo]; rfl, ?_⟩
      · rw [hdo]
        simp [Dns.queryRemoveWaiter, Dns.updateConn, Dns.log, Function.update_of_ne hne]
      · intro e hmem sc' hne
        rw [List.mem_singleton.1 hmem]
        exact fun heq => hne (Option.some.inj heq).symm
    have hcourse1 : courseOf sc d1.trace = [.waiting sc q.domain] ++ [.closed sc] := by
      rw [hdo, ← hcourse]
      exact courseOf_concat rfl _
    -- the lists lose this connection, and nobody else
    have hmem1 : ∀ p ∈ d.queries, ∀ sc',
        sc' ∈ (if p.addr = q.addr then Dns.dropWaiter env sc p else p).waiters ↔
          sc' ≠ sc ∧ sc' ∈ p.waiters := by
      intro p hp sc'
      split_ifs with haddr
      · exact mem_dropWaiter env (h.nodup p hp)
      · refine ⟨fun hmem' => ⟨?_, hmem'⟩, fun hmem' => hmem'.2⟩
        rintro rfl
        have hconn' := (h.linked p hp sc' hmem').2.1
        rw [hconn] at hconn'
        exact haddr (Option.some.inj (congrArg DnsConn.resolveReq hconn')).symm
    have hfields : ∀ p : DnsQuery,
        (if p.addr = q.addr then Dns.dropWaiter env sc p else p).addr = p.addr ∧
          (if p.addr = q.addr then Dns.dropWaiter env sc p else p).domain = p.domain := by
      intro p
      split_ifs <;> exact ⟨rfl, rfl⟩
    refine ⟨?_, ?_, ?_, ?_, ?_⟩
    · rw [hqueries, List.map_map]
      exact (List.map_congr_left fun p _ => (hfields p).1) ▸ h.addrs
    · rw [hqueries]
      refine List.forall_mem_map.2 fun p hp => ?_
      split_ifs
      · exact (h.nodup p hp).erase sc
      · exact h.nodup p hp
    · rw [hqueries]
      refine List.forall_mem_map.2 fun p hp hcanceled => ?_
      refine List.eq_nil_iff_forall_not_mem.2 fun sc' hmem' => ?_
      split_ifs at hcanceled hmem' with haddr
      · rcases Bool.or_eq_true_iff.1 hcanceled with hold | hnew
        · have hmem'' := List.mem_of_mem_erase hmem'
          rw [h.canceled p hp hold] at hmem''
          cases hmem''
        · have hempty : (p.waiters.erase sc).isEmpty = true := by
            simp only [Bool.and_eq_true] at hnew
            exact hnew.1.1
          rw [show (Dns.dropWaiter env sc p).waiters = p.waiters.erase sc from rfl,
            List.isEmpty_iff.1 hempty] at hmem'
          cases hmem'
      · rw [h.canceled p hp hcanceled] at hmem'
        cases hmem'
    · rw [hqueries]
      refine List.forall_mem_map.2 fun p hp sc' hmem' => ?_
      obtain ⟨hne, hold⟩ := (hmem1 p hp sc').1 hmem'
      rw [(hfields p).1, (hfields p).2]
      exact ⟨by simp, (h.linked p hp sc' hold).2.others hothers hne⟩
    · intro sc' _ hidle
      rw [hqueries] at hidle
      by_cases heq : sc' = sc
      · rw [heq, AtRest, hconn1]
        exact ⟨rfl, by rw [if_pos rfl]; exact ⟨_, hcourse1, .inr ⟨q.domain, rfl⟩⟩⟩
      · refine (h.rest sc' (by simp) fun p hp hmem' => ?_).others hothers heq
        exact hidle _ (List.mem_map_of_mem hp) ((hmem1 p hp sc').2 ⟨heq, hmem'⟩)

/-- A connection that starts to wait for the query at `addr`. -/
theorem waiting_log {addr : ℕ} (hcourse : courseOf sc d.trace = []) (domain : DomainName) {d' : Dns}
    (hconns : d'.conns = Function.update d.conns sc ⟨true, false, some addr⟩)
    (htrace : d'.trace = d.trace ++ [.waiting sc domain]) (hdown : d'.shuttingDown = d.shuttingDown) :
    Others sc d d' ∧ Waiting d' sc addr domain := by
  refine ⟨⟨hdown, fun sc' hne => ?_, _, htrace, fun e hmem sc' hne => ?_⟩, ?_, ?_⟩
  · rw [hconns, Function.update_of_ne hne]
  · rw [List.mem_singleton.1 hmem]
    exact fun heq => hne (Option.some.inj heq).symm
  · rw [hconns, Function.update_self]
  · rw [htrace, courseOf_concat rfl, hcourse]
    rfl

/-- A connection joins a query that is not canceled. -/
theorem waitInv_join (h : WaitInv [sc] d) (hconn : d.conns sc = ⟨true, false, none⟩)
    (hcourse : courseOf sc d.trace = []) {q : DnsQuery} (hq : q ∈ d.queries)
    (hlive : q.canceled = false) :
    WaitInv [] ((d.log (.waiting sc q.domain)).queryAddWaiter q.addr sc) := by
  generalize hd1 : (d.log (.waiting sc q.domain)).queryAddWaiter q.addr sc = d1
  have hqueries : d1.queries = d.queries.map fun p =>
      if p.addr = q.addr then { p with waiters := sc :: p.waiters } else p := by
    rw [← hd1]
    rfl
  obtain ⟨hothers, hwaiting⟩ := @waiting_log d sc q.addr hcourse q.domain d1
    (by rw [← hd1]; simp [Dns.queryAddWaiter, Dns.updateConn, Dns.log, hconn])
    (by rw [← hd1]; rfl) (by rw [← hd1]; rfl)
  have hother : ∀ p ∈ d.queries, sc ∉ p.waiters := fun p hp hmem =>
    (h.linked p hp sc hmem).1 (List.mem_singleton_self sc)
  have hsame : ∀ p ∈ d.queries, p.addr = q.addr → p = q := fun p hp haddr =>
    List.inj_on_of_nodup_map h.addrs hp hq haddr
  have hold : ∀ p ∈ d.queries, ∀ sc' ∈ p.waiters, sc' ∉ ([] : List ℕ) ∧
      Waiting d1 sc' p.addr p.domain := by
    intro p hp sc' hmem
    obtain ⟨hhome, hwaits⟩ := h.linked p hp sc' hmem
    exact ⟨by simp, hwaits.others hothers (by simpa using hhome)⟩
  refine ⟨?_, ?_, ?_, ?_, ?_⟩
  · rw [hqueries, List.map_map]
    have hfields : d.queries.map (DnsQuery.addr ∘ fun p =>
        if p.addr = q.addr then { p with waiters := sc :: p.waiters } else p) =
        d.queries.map DnsQuery.addr :=
      List.map_congr_left fun p _ => by
        simp only [Function.comp_apply]
        split_ifs <;> rfl
    rw [hfields]
    exact h.addrs
  · rw [hqueries]
    refine List.forall_mem_map.2 fun p hp => ?_
    split_ifs
    · exact List.nodup_cons.2 ⟨hother p hp, h.nodup p hp⟩
    · exact h.nodup p hp
  · rw [hqueries]
    refine List.forall_mem_map.2 fun p hp hcanceled => ?_
    split_ifs at hcanceled ⊢ with haddr
    · rw [hsame p hp haddr] at hcanceled
      rw [hlive] at hcanceled
      cases hcanceled
    · exact h.canceled p hp hcanceled
  · rw [hqueries]
    refine List.forall_mem_map.2 fun p hp sc' hmem => ?_
    split_ifs at hmem ⊢ with haddr
    · rcases List.mem_cons.1 hmem with rfl | hmem
      · rw [hsame p hp haddr]
        exact ⟨by simp, hwaiting⟩
      · exact hold p hp sc' hmem
    · exact hold p hp sc' hmem
  · intro sc' _ hidle
    rw [hqueries] at hidle
    have hne : sc' ≠ sc := by
      rintro rfl
      refine hidle _ (List.mem_map_of_mem hq) ?_
      rw [if_pos rfl]
      exact List.mem_cons_self
    refine (h.rest sc' (by simpa using hne) fun p hp hmem => ?_).others hothers hne
    refine hidle _ (List.mem_map_of_mem hp) ?_
    split_ifs
    · exact List.mem_cons_of_mem _ hmem
    · exact hmem

/-- A new query has its connection in its list. -/
theorem waitInv_insert (h : WaitInv [sc] d) (hconn : d.conns sc = ⟨true, false, none⟩)
    (hcourse : courseOf sc d.trace = []) {addr : ℕ} (hnew : ∀ q ∈ d.queries, q.addr ≠ addr)
    (domain : DomainName) :
    WaitInv [] ((d.log (.waiting sc domain)).queryInsert addr sc domain) := by
  generalize hd1 : (d.log (.waiting sc domain)).queryInsert addr sc domain = d1
  have hqueries : d1.queries = ⟨addr, domain, d.usingCares, [sc], false⟩ :: d.queries := by
    rw [← hd1]
    rfl
  obtain ⟨hothers, hwaiting⟩ := @waiting_log d sc addr hcourse domain d1
    (by rw [← hd1]; simp [Dns.queryInsert, Dns.updateConn, Dns.log, hconn])
    (by rw [← hd1]; rfl) (by rw [← hd1]; rfl)
  refine ⟨?_, ?_, ?_, ?_, ?_⟩
  · rw [hqueries, List.map_cons, List.nodup_cons]
    refine ⟨fun hmem => ?_, h.addrs⟩
    obtain ⟨q, hq, heq⟩ := List.mem_map.1 hmem
    exact hnew q hq heq
  · rw [hqueries]
    exact List.forall_mem_cons.2 ⟨List.nodup_singleton sc, h.nodup⟩
  · rw [hqueries]
    exact List.forall_mem_cons.2 ⟨nofun, h.canceled⟩
  · rw [hqueries]
    refine List.forall_mem_cons.2 ⟨fun sc' hmem => ?_, fun p hp sc' hmem => ?_⟩
    · rw [List.mem_singleton.1 hmem]
      exact ⟨by simp, hwaiting⟩
    · obtain ⟨hhome, hwaits⟩ := h.linked p hp sc' hmem
      exact ⟨by simp, hwaits.others hothers (by simpa using hhome)⟩
  · intro sc' _ hidle
    rw [hqueries] at hidle
    obtain ⟨hnone, hidle⟩ := List.forall_mem_cons.1 hidle
    have hne : sc' ≠ sc := by simpa using hnone
    exact (h.rest sc' (by simpa using hne) hidle).others hothers hne

/-- A connection waits for a query, or none could be started and it still does not wait. -/
theorem waitInv_startQuery (h : WaitInv [sc] d) (hconn : d.conns sc = ⟨true, false, none⟩)
    (hcourse : courseOf sc d.trace = []) {domain : DomainName}
    (hlate : ∀ q, d.queryFind domain = some q → q.canceled = false)
    (hcalloc : ∀ q ∈ d.queries, env.calloc ≠ some q.addr)
    (hsync : ∀ r ∈ env.sync, r.status ≠ aresEcancelled) :
    if (d.startQuery env sc domain).1 then WaitInv [] (d.startQuery env sc domain).2
    else Only sc d (d.startQuery env sc domain).2 ∧
      (d.startQuery env sc domain).2.conns sc = ⟨true, false, none⟩ ∧
      (courseOf sc (d.startQuery env sc domain).2.trace = [] ∨
        courseOf sc (d.startQuery env sc domain).2.trace = [.waiting sc domain]) := by
  unfold Dns.startQuery
  cases hfind : d.queryFind domain with
  | some q =>
    have hdomain : q.domain = domain := by simpa using List.find?_some hfind
    have hjoin := waitInv_join h hconn hcourse (List.mem_of_find?_eq_some hfind) (hlate q hfind)
    rw [hdomain] at hjoin
    exact hjoin
  | none =>
    cases haddr : env.calloc with
    | none => exact ⟨.refl sc d, hconn, .inl hcourse⟩
    | some addr =>
      have hnew : ∀ q ∈ d.queries, q.addr ≠ addr := fun q hq heq =>
        hcalloc q hq (by rw [haddr, heq])
      have hinv := waitInv_insert h hconn hcourse hnew domain
      have hhead : ((d.log (.waiting sc domain)).queryInsert addr sc domain).queries =
          ⟨addr, domain, d.usingCares, [sc], false⟩ :: d.queries := rfl
      simp only
      by_cases hcares : ((d.log (.waiting sc domain)).queryInsert addr sc domain).usingCares
      · rw [if_pos hcares]
        have hcares' : d.usingCares = true := hcares
        cases hres : env.sync with
        | none => exact hinv
        | some result =>
          refine (waitInv_resolverCallback env hinv addr fun q hq heq => .inr (.inr ?_)).1
          rw [hhead] at hq
          rcases List.mem_cons.1 hq with rfl | hq
          · rw [DnsQuery.Cancels, if_pos hcares']
            exact hsync result hres
          · exact absurd heq (hnew q hq)
      · rw [if_neg hcares]
        by_cases hfail : env.getaddrinfo < 0
        · rw [if_pos hfail]
          -- the new query is unlinked again
          have hback : (((d.log (.waiting sc domain)).queryInsert addr sc domain).queryUnlink
              addr).queries = d.queries := by
            simp [Dns.queryUnlink, hhead]
          refine ⟨⟨⟨rfl, fun sc' hne => ?_, [.waiting sc domain], rfl, fun e hmem sc' hne => ?_⟩,
            hback⟩, ?_, .inr ?_⟩
          · simp [Dns.queryUnlink, Dns.queryInsert, Dns.updateConn, Dns.log,
              Function.update_of_ne hne]
          · rw [List.mem_singleton.1 hmem]
            exact fun heq => hne (Option.some.inj heq).symm
          · simp [Dns.queryUnlink, Dns.queryInsert, Dns.updateConn, Dns.log, hconn]
          · exact (courseOf_concat rfl _).trans (by rw [hcourse]; rfl)
        · rw [if_neg hfail]
          exact hinv

/-- Nobody joins a query that was canceled. -/
def NoLateJoin (d : Dns) (e : DnsEnv × DnsEvent) : Prop :=
  match e.2 with
  | .request _ domain => ∀ q ∈ d.queryFind domain, q.canceled = false
  | _ => True

instance (d : Dns) : ∀ e, Decidable (NoLateJoin d e)
  | (_, .request _ domain) =>
    inferInstanceAs (Decidable (∀ q ∈ d.queryFind domain, q.canceled = false))
  | (_, .answer _ _) | (_, .close _) | (_, .stop) => inferInstanceAs (Decidable True)

/-- A connection asks for a domain. -/
theorem waitInv_request (h : WaitInv [] d) {domain : DomainName}
    (henabled : (DnsEvent.request sc domain).enabled d env)
    (hlate : NoLateJoin d (env, .request sc domain)) :
    WaitInv [] (d.request env sc domain) := by
  obtain ⟨hopen, hasked, hcalloc, hsync⟩ := henabled
  -- the connection has not waited yet
  have hidle : ∀ q ∈ d.queries, sc ∉ q.waiters := by
    intro q hq hmem
    rw [(h.linked q hq sc hmem).2.1] at hasked
    cases hasked
  obtain ⟨hreq, hpast⟩ := h.rest sc (by simp) hidle
  rw [if_neg (by simp [hopen])] at hpast
  have hcourse := hpast.2 hasked
  unfold Dns.request
  simp only
  generalize (if ((d.log (.asked sc domain env.now)).updateConn sc
      fun conn => { conn with asked := true }).cacheEnabled then
      dnsCacheLookup domain env.now ((d.log (.asked sc domain env.now)).updateConn sc
        fun conn => { conn with asked := true }).cache
    else (none, ((d.log (.asked sc domain env.now)).updateConn sc
        fun conn => { conn with asked := true }).cache)) = look
  generalize hd1 : ({ (d.log (.asked sc domain env.now)).updateConn sc
    (fun conn => { conn with asked := true }) with cache := look.2 } : Dns) = d1
  have honly : Only sc d d1 := by
    have hlog := @only_log sc (.asked sc domain env.now) (.inr rfl) d
    have hupdate := hlog.trans (only_updateConn _ sc fun conn => { conn with asked := true })
    rw [← hd1]
    exact ⟨⟨hupdate.shuttingDown, hupdate.conns, hupdate.trace⟩, hupdate.queries⟩
  have hconn1 : d1.conns sc = ⟨true, false, none⟩ := by
    rw [← hd1]
    simp [Dns.updateConn, Dns.log, hopen, hreq]
  have hcourse1 : courseOf sc d1.trace = [] := by
    rw [← hd1, ← hcourse]
    exact courseOf_append_of_ne (by simp [DnsRecord.about]) _
  have hinv1 : WaitInv [sc] d1 := (h.leave hidle).only (List.mem_singleton_self sc) honly
  cases look.1 with
  | some ip =>
    have hlog := @only_log sc (.hit sc domain ip env.now) (.inr rfl) d1
    have hcourse2 : courseOf sc (d1.log (.hit sc domain ip env.now)).trace = [] := by
      rw [← hcourse1]
      exact courseOf_append_of_ne (by simp [DnsRecord.about]) _
    obtain ⟨hdone, hrest⟩ := @resolveComplete_idle sc (d1.log (.hit sc domain ip env.now)) env
      hconn1 domain ⟨0, .inet, ip, none⟩ (by rw [hcourse2]; exact .found domain _)
    exact (hinv1.only (List.mem_singleton_self sc) (hlog.trans hdone)).settle hrest
  | none =>
    have hfind : d1.queryFind domain = d.queryFind domain := by
      rw [Dns.queryFind, honly.queries]
      rfl
    have hstart := waitInv_startQuery env hinv1 hconn1 hcourse1
      (fun q hq => hlate q (hfind ▸ hq)) (by rw [honly.queries]; exact hcalloc) hsync
    simp only
    split_ifs at hstart ⊢
    · exact hstart
    · obtain ⟨honly', hconn', hcourse'⟩ := hstart
      obtain ⟨hclose, hrest⟩ := connClose_idle env hconn' (hcourse'.imp
        (fun hnil => by rw [hnil]; exact .fresh) fun hwait => ⟨domain, hwait⟩)
      exact (hinv1.only (List.mem_singleton_self sc) (honly'.trans hclose)).settle hrest

/-- Every event but a late join keeps the invariant. -/
theorem waitInv_step (h : WaitInv [] d) {e : DnsEnv × DnsEvent} (hlate : NoLateJoin d e) :
    WaitInv [] (dnsStep d e) := by
  obtain ⟨env, e⟩ := e
  unfold dnsStep
  split_ifs with henabled
  · cases e with
    | request sc domain => exact waitInv_request env h henabled hlate
    | answer addr result =>
      obtain ⟨q, hq, haddr, hreal⟩ := henabled
      refine (waitInv_resolverCallback env h addr fun p hp hpaddr => ?_).1
      have hpq : p = q := List.inj_on_of_nodup_map h.addrs hp hq (hpaddr.trans haddr.symm)
      rw [hpq]
      split_ifs at hreal with hcanceled
      · exact .inl hcanceled
      · exact .inr (.inr hreal)
    | close sc => exact waitInv_connClose env h sc
    | stop => exact waitInv_stop env h
  · exact h

end Members

theorem waitInv_init (cacheEnabled usingCares : Bool) :
    WaitInv [] (.init cacheEnabled usingCares) := by
  refine ⟨List.nodup_nil, nofun, nofun, nofun, fun sc _ _ => ⟨rfl, ?_⟩⟩
  rw [if_neg (by simp [Dns.init])]
  exact ⟨.fresh, fun _ => rfl⟩

/-! ### Everyone is served once -/

/-- The connection waits: it is once in the list of one query in flight, which is about its domain
and not canceled, and nothing else has happened to it. -/
def Waits (d : Dns) (sc : ℕ) (domain : DomainName) : Prop :=
  (d.conns sc).closed = false ∧ courseOf sc d.trace = [.waiting sc domain] ∧
    ∃ q ∈ d.queries, q.domain = domain ∧ q.canceled = false ∧ q.waiters.count sc = 1 ∧
      ∀ p ∈ d.queries, sc ∈ p.waiters → p = q

/-- The connection was given one answer, the resolver's about its domain, and is in no list. -/
def AnsweredOnce (d : Dns) (sc : ℕ) (domain : DomainName) : Prop :=
  (∀ q ∈ d.queries, sc ∉ q.waiters) ∧ ∃ answer, Given d.trace domain answer ∧
    (courseOf sc d.trace = [.waiting sc domain, .complete sc domain answer] ∨
      courseOf sc d.trace = [.waiting sc domain, .complete sc domain answer, .closed sc])

/-- The connection was closed before it was given an answer, and is in no list. -/
def Gone (d : Dns) (sc : ℕ) (domain : DomainName) : Prop :=
  (∀ q ∈ d.queries, sc ∉ q.waiters) ∧ (d.conns sc).closed = true ∧
    courseOf sc d.trace = [.waiting sc domain, .closed sc]

/-- **Coalesced queries are independent of other clients.**  In every run in which nobody joins a
query that was canceled: a connection that has begun to wait still waits, or was given one answer,
which is the resolver's for its domain and no cancellation, unless it was closed before; and a
connection that is closed is in no list, and nothing happens to it behind its end. -/
theorem coalesced (cacheEnabled usingCares : Bool) (es : List (DnsEnv × DnsEvent))
    (hlate : Machine.Guarded dnsStep NoLateJoin (.init cacheEnabled usingCares) es) :
    (∀ sc domain, .waiting sc domain ∈ (dnsRun cacheEnabled usingCares es).trace →
      Waits (dnsRun cacheEnabled usingCares es) sc domain ∨
        AnsweredOnce (dnsRun cacheEnabled usingCares es) sc domain ∨
        Gone (dnsRun cacheEnabled usingCares es) sc domain) ∧
    ∀ sc, ((dnsRun cacheEnabled usingCares es).conns sc).closed = true →
      (∀ q ∈ (dnsRun cacheEnabled usingCares es).queries, sc ∉ q.waiters) ∧
      ∀ pre post, courseOf sc (dnsRun cacheEnabled usingCares es).trace =
        pre ++ .closed sc :: post → post = [] := by
  have hinv : WaitInv [] (dnsRun cacheEnabled usingCares es) :=
    @Machine.run_induction _ _ dnsStep NoLateJoin (WaitInv [])
      (fun _ _ h hlate => waitInv_step h hlate) (.init cacheEnabled usingCares)
      (waitInv_init cacheEnabled usingCares) es hlate
  generalize dnsRun cacheEnabled usingCares es = d at hinv
  refine ⟨fun sc domain hmem => ?_, fun sc hclosed => ?_⟩
  · have hcourse : .waiting sc domain ∈ courseOf sc d.trace :=
      List.mem_filter.2 ⟨hmem, by simp [DnsRecord.about]⟩
    by_cases hlisted : ∃ q ∈ d.queries, sc ∈ q.waiters
    · obtain ⟨q, hq, hwaits⟩ := hlisted
      obtain ⟨-, hconn, honly⟩ := hinv.linked q hq sc hwaits
      rw [honly, List.mem_singleton] at hcourse
      have hdomain : domain = q.domain := (DnsRecord.waiting.inj hcourse).2
      refine .inl ⟨by rw [hconn], by rw [honly, hdomain], q, hq, hdomain.symm, ?_,
        List.count_eq_one_of_mem (hinv.nodup q hq) hwaits, fun p hp hmem' => ?_⟩
      · by_contra hno
        rw [hinv.canceled q hq (by simpa using hno)] at hwaits
        cases hwaits
      · have hconn' := (hinv.linked p hp sc hmem').2.1
        rw [hconn] at hconn'
        exact List.inj_on_of_nodup_map hinv.addrs hp hq
          (Option.some.inj (congrArg DnsConn.resolveReq hconn')).symm
    · push Not at hlisted
      obtain ⟨-, hpast⟩ := hinv.rest sc (by simp) hlisted
      refine .inr ?_
      split_ifs at hpast with hclosed
      · obtain ⟨past, heq, hpast | ⟨dom, rfl⟩⟩ := hpast
        · rw [heq] at hcourse
          cases hpast with
          | fresh => simp at hcourse
          | found dom answer => simp at hcourse
          | served dom answer hgiven =>
            obtain rfl : domain = dom := by simpa using hcourse
            exact .inl ⟨hlisted, answer, hgiven, .inr heq⟩
        · rw [heq] at hcourse
          obtain rfl : domain = dom := by simpa using hcourse
          exact .inr ⟨hlisted, hclosed, heq⟩
      · generalize heq : courseOf sc d.trace = past at hcourse hpast
        cases hpast.1 with
        | fresh => simp at hcourse
        | found dom answer => simp at hcourse
        | served dom answer hgiven =>
          obtain rfl : domain = dom := by simpa using hcourse
          exact .inl ⟨hlisted, answer, hgiven, .inl heq⟩
  · have hlisted : ∀ q ∈ d.queries, sc ∉ q.waiters := by
      intro q hq hmem
      rw [(hinv.linked q hq sc hmem).2.1] at hclosed
      cases hclosed
    refine ⟨hlisted, fun pre post hsplit => ?_⟩
    obtain ⟨-, hpast⟩ := hinv.rest sc (by simp) hlisted
    rw [if_pos hclosed] at hpast
    obtain ⟨past, heq, hpast⟩ := hpast
    -- before its end, the connection was not closed
    have hnone : .closed sc ∉ past := by
      rcases hpast with hpast | ⟨dom, rfl⟩
      · cases hpast <;> simp
      · simp
    rw [heq] at hsplit
    rcases List.append_eq_append_iff.1 hsplit with ⟨mid, -, hmid⟩ | ⟨mid, hpre, hmid⟩
    · have hlen := congrArg List.length hmid
      simp only [List.length_append, List.length_cons, List.length_nil] at hlen
      exact List.eq_nil_of_length_eq_zero (by omega)
    · cases mid with
      | nil => exact (List.cons.inj hmid).2
      | cons e mid =>
        refine absurd ?_ hnone
        rw [hpre, (List.cons.inj hmid).1]
        simp

/-! ### A query that two connections share -/

/-- An environment in which a new query is at the address `addr` and `uv_cancel` takes hold. -/
def dnsEnvCancel (addr : ℕ) : DnsEnv := ⟨0, some addr, 0, none, true, fun _ => true⟩

/-- A domain of one letter. -/
def letterDomain : DomainName := ⟨[97], by decide, by decide⟩

/-- Two connections ask for the same domain, one goes, and the resolver answers. -/
def sharedQuery : List (DnsEnv × DnsEvent) :=
  [(dnsEnvCancel 1, .request 0 letterDomain), (dnsEnvCancel 2, .request 1 letterDomain),
    (dnsEnvCancel 2, .close 0),
    (dnsEnvCancel 2, .answer 1 ⟨0, some [.inet (Vector.replicate 4 10)]⟩)]

/-- A connection asks for a domain and goes, a second one asks for the same domain, and the resolver
calls back for the canceled request. -/
def lateJoin : List (DnsEnv × DnsEvent) :=
  [(dnsEnvCancel 1, .request 0 letterDomain), (dnsEnvCancel 1, .close 0),
    (dnsEnvCancel 2, .request 1 letterDomain), (dnsEnvCancel 2, .answer 1 ⟨uvEaiCanceled, none⟩)]

/-- The answers that a connection was given: their statuses. -/
def statusesOf (sc : ℕ) (trace : List DnsRecord) : List ℤ :=
  trace.filterMap fun
    | .complete sc' _ answer => if sc' = sc then some answer.status else none
    | _ => none

/-- The connection that stays is given the resolver's answer, the one that has gone is given
nothing. -/
theorem coalesced_shared :
    Machine.Guarded dnsStep NoLateJoin (.init true false) sharedQuery ∧
      statusesOf 0 (dnsRun true false sharedQuery).trace = [] ∧
      statusesOf 1 (dnsRun true false sharedQuery).trace = [0] ∧
      ∀ sc, ((dnsRun true false sharedQuery).conns sc).closed = true →
        ∀ q ∈ (dnsRun true false sharedQuery).queries, sc ∉ q.waiters := by
  have hlate : Machine.Guarded dnsStep NoLateJoin (.init true false) sharedQuery := by
    decide +kernel
  refine ⟨hlate, by decide +kernel, by decide +kernel, fun sc hclosed => ?_⟩
  exact ((coalesced true false sharedQuery hlate).2 sc hclosed).1

/-- The connection that has joined late is given a cancellation. -/
theorem late_join_canceled :
    .waiting 1 letterDomain ∈ (dnsRun true false lateJoin).trace ∧
      statusesOf 1 (dnsRun true false lateJoin).trace = [uvEaiCanceled] ∧
      ¬ (Waits (dnsRun true false lateJoin) 1 letterDomain ∨
        AnsweredOnce (dnsRun true false lateJoin) 1 letterDomain ∨
        Gone (dnsRun true false lateJoin) 1 letterDomain) := by
  have hcourse : courseOf 1 (dnsRun true false lateJoin).trace =
      [.waiting 1 letterDomain, .complete 1 letterDomain (.none uvEaiCanceled), .closed 1] := by
    rfl
  refine ⟨?_, by decide +kernel, ?_⟩
  · have hmem : .waiting 1 letterDomain ∈ courseOf 1 (dnsRun true false lateJoin).trace := by
      rw [hcourse]
      simp
    exact List.mem_of_mem_filter hmem
  rintro (⟨-, hwaits, -⟩ | ⟨-, answer, hgiven, -⟩ | ⟨-, -, hgone⟩)
  · rw [hcourse] at hwaits
    cases hwaits
  · -- the resolver has called back once, with the cancellation
    obtain ⟨q, result, now, hmem, -, -, hreal⟩ := hgiven
    have hresults : (dnsRun true false lateJoin).trace.filterMap
        (fun | .answered q result _ => some (q.cares, result.status) | _ => none) =
          [(false, uvEaiCanceled)] := by decide +kernel
    have hone : (q.cares, result.status) ∈ [(false, uvEaiCanceled)] :=
      hresults ▸ List.mem_filterMap.2 ⟨_, hmem, rfl⟩
    obtain ⟨hcares, hstatus⟩ := Prod.mk.inj (List.mem_singleton.1 hone)
    exact hreal (by rw [DnsQuery.Cancels, hcares, hstatus]; rfl)
  · rw [hcourse] at hgone
    cases hgone

end Wgx
