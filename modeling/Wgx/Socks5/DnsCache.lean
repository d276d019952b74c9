import Wgx.Socks5.Dns

/-!
# How long the resolver's cache serves an answer

An entry of the cache is good for `SOCKS5_DNS_TTL_MS` from when it is stored.  It is stored when the
resolver answers, but also when a connection finds it, so that it outlives its answer.

* `Serves` is what the table of the cache says, with one lemma for each of its loops;
* `lastAnswer` reads off the record when a domain was last answered and who has asked since;
* `CacheInv`: what is served is the last answer, for as long as it or a later question allows;
* `cached_answer_fresh`: where no question comes in the time that only an earlier question has
  added, nothing is served that is older than the time allowed.
-/

namespace Wgx

/-! ### What the table serves -/

/-- The table has a valid entry for the domain, good until `x`. -/
def Serves (cache : List DnsEntry) (domain : DomainName) (ip : InAddr) (x : ℕ) : Prop :=
  ∃ entry ∈ cache, entry.valid = true ∧ entry.domain = domain ∧ entry.ip = ip ∧
    entry.expiresAt = x

theorem serves_cons {entry : DnsEntry} {cache : List DnsEntry} {domain : DomainName} {ip : InAddr}
    {x : ℕ} : Serves (entry :: cache) domain ip x ↔
      (entry.valid = true ∧ entry.domain = domain ∧ entry.ip = ip ∧ entry.expiresAt = x) ∨
        Serves cache domain ip x := by
  simp [Serves]

section Table

variable {domain dom : DomainName} {now x : ℕ} {cache : List DnsEntry} {ip : InAddr}

/-- Looking for a domain adds nothing. -/
theorem serves_dnsCacheLookup (h : Serves (dnsCacheLookup domain now cache).2 dom ip x) :
    Serves cache dom ip x := by
  induction cache with
  | nil => exact h
  | cons entry cache ih =>
    rw [serves_cons]
    unfold dnsCacheLookup at h
    simp only at h
    split_ifs at h with hvalid hold hother
    · exact (serves_cons.1 h).imp_right ih
    · rcases serves_cons.1 h with hentry | hrest
      · cases hentry.1
      · exact .inr (ih hrest)
    · exact (serves_cons.1 h).imp_right ih
    · have hused := serves_cons.1 h
      exact hused

/-- What is found is served, and still good. -/
theorem dnsCacheLookup_some (h : (dnsCacheLookup domain now cache).1 = some ip) :
    ∃ x, Serves cache domain ip x ∧ now < x := by
  induction cache with
  | nil => cases h
  | cons entry cache ih =>
    unfold dnsCacheLookup at h
    simp only at h
    split_ifs at h with hvalid hold hother
    · obtain ⟨x, hx, hlt⟩ := ih h
      exact ⟨x, serves_cons.2 (.inr hx), hlt⟩
    · obtain ⟨x, hx, hlt⟩ := ih h
      exact ⟨x, serves_cons.2 (.inr hx), hlt⟩
    · obtain ⟨x, hx, hlt⟩ := ih h
      exact ⟨x, serves_cons.2 (.inr hx), hlt⟩
    · refine ⟨entry.expiresAt, serves_cons.2 (.inl ⟨?_, ?_, Option.some.inj h, rfl⟩), by omega⟩
      · simpa using hvalid
      · simpa using hother

/-- Where nothing is found, nothing is left. -/
theorem dnsCacheLookup_none (h : (dnsCacheLookup domain now cache).1 = none) :
    ¬ Serves (dnsCacheLookup domain now cache).2 domain ip x := by
  induction cache with
  | nil => simp [dnsCacheLookup, Serves]
  | cons entry cache ih =>
    unfold dnsCacheLookup at h ⊢
    simp only at h ⊢
    split_ifs at h ⊢ with hvalid hold hother
    · rw [serves_cons]
      rintro (⟨htrue, -⟩ | hrest)
      · simp [htrue] at hvalid
      · exact ih h hrest
    · rw [serves_cons]
      rintro (⟨htrue, -⟩ | hrest)
      · cases htrue
      · exact ih h hrest
    · rw [serves_cons]
      rintro (⟨-, hdom, -⟩ | hrest)
      · exact hother hdom
      · exact ih h hrest

/-- Looking for a slot adds nothing. -/
theorem serves_dnsCacheSlot {i oldest used : ℕ}
    (h : Serves (dnsCacheSlot domain now i oldest used cache).2 dom ip x) :
    Serves cache dom ip x := by
  induction cache generalizing i oldest used with
  | nil => exact h
  | cons entry cache ih =>
    rw [serves_cons]
    have hentry : ∀ {e : DnsEntry} {rest : List DnsEntry}, Serves (e :: rest) dom ip x →
        e = (if entry.valid ∧ entry.expiresAt ≤ now then { entry with valid := false } else entry) →
        (Serves rest dom ip x → Serves cache dom ip x) →
        (entry.valid = true ∧ entry.domain = dom ∧ entry.ip = ip ∧ entry.expiresAt = x) ∨
          Serves cache dom ip x := by
      intro e rest hserves he hrest
      rcases serves_cons.1 hserves with hhead | htail
      · refine .inl ?_
        rw [he] at hhead
        split_ifs at hhead with hold
        · cases hhead.1
        · exact hhead
      · exact .inr (hrest htail)
    unfold dnsCacheSlot at h
    simp only at h
    generalize hkept : (if entry.valid ∧ entry.expiresAt ≤ now then { entry with valid := false }
      else entry) = kept at h
    split_ifs at h
    · exact hentry h hkept.symm id
    · exact hentry h hkept.symm id
    · exact hentry h hkept.symm ih
    · exact hentry h hkept.symm ih

/-- A table to which an answer was stored serves this answer, and what it has served before. -/
theorem serves_dnsCacheStore {ip' : InAddr}
    (h : Serves (dnsCacheStore domain ip' now cache) dom ip x) :
    (dom = domain ∧ ip = ip' ∧ x = now + socks5DnsTtlMs) ∨ Serves cache dom ip x := by
  obtain ⟨entry, hmem, hentry⟩ := h
  unfold dnsCacheStore at hmem
  rcases List.mem_or_eq_of_mem_set hmem with hmem | rfl
  · exact .inr (serves_dnsCacheSlot ⟨entry, hmem, hentry⟩)
  · exact .inl ⟨hentry.2.1.symm, hentry.2.2.1.symm, hentry.2.2.2.symm⟩

end Table

/-! ### What the record says -/

/-- The last answer with an IPv4 address: the address, when it came, and when the domain was asked
for since. -/
structure LastAnswer where
  ip : InAddr
  time : ℕ
  since : List ℕ

/-- The last answer for `domain` behind one more entry of the record. -/
def lastAnswerStep (domain : DomainName) (last : Option LastAnswer) : DnsRecord → Option LastAnswer
  | .answered q result now =>
    if q.domain = domain ∧ 0 ≤ (q.answer result).status ∧ (q.answer result).family = .inet then
      some ⟨(q.answer result).ip, now, []⟩
    else last
  | .asked _ dom now =>
    if dom = domain then last.map fun l => { l with since := now :: l.since } else last
  | _ => last

/-- The last answer for `domain` in the record. -/
def lastAnswer (domain : DomainName) (trace : List DnsRecord) : Option LastAnswer :=
  trace.foldl (lastAnswerStep domain) none

theorem lastAnswer_concat (domain : DomainName) (trace : List DnsRecord) (e : DnsRecord) :
    lastAnswer domain (trace ++ [e]) = lastAnswerStep domain (lastAnswer domain trace) e := by
  rw [lastAnswer, List.foldl_append]
  rfl

theorem lastAnswer_hit (dom : DomainName) (trace : List DnsRecord) (sc : ℕ) (domain : DomainName)
    (ip : InAddr) (now : ℕ) :
    lastAnswer dom (trace ++ [.hit sc domain ip now]) = lastAnswer dom trace := by
  rw [lastAnswer_concat]
  rfl

/-- The resolver has delivered the address for the domain at the time `s`. -/
def Delivered (trace : List DnsRecord) (domain : DomainName) (ip : InAddr) (s : ℕ) : Prop :=
  ∃ q result, .answered q result s ∈ trace ∧ q.domain = domain ∧ 0 ≤ (q.answer result).status ∧
    (q.answer result).family = .inet ∧ (q.answer result).ip = ip

theorem Delivered.append {trace : List DnsRecord} {domain : DomainName} {ip : InAddr} {s : ℕ}
    (h : Delivered trace domain ip s) (new : List DnsRecord) :
    Delivered (trace ++ new) domain ip s := by
  obtain ⟨q, result, hmem, hrest⟩ := h
  exact ⟨q, result, List.mem_append_left _ hmem, hrest⟩

/-- The last answer was delivered. -/
theorem delivered_of_lastAnswer {domain : DomainName} {trace : List DnsRecord} {l : LastAnswer}
    (h : lastAnswer domain trace = some l) : Delivered trace domain l.ip l.time := by
  induction trace using List.reverseRecOn generalizing l with
  | nil => cases h
  | append_singleton trace e ih =>
    rw [lastAnswer_concat] at h
    cases e with
    | answered q result now =>
      rw [lastAnswerStep] at h
      split_ifs at h with hip
      · obtain rfl := Option.some.inj h
        exact ⟨q, result, by simp, hip.1, hip.2.1, hip.2.2, rfl⟩
      · exact (ih h).append _
    | asked sc dom now =>
      rw [lastAnswerStep] at h
      split_ifs at h
      · obtain ⟨l', hl', rfl⟩ := Option.map_eq_some_iff.1 h
        exact (@ih l' hl').append _
      · exact (ih h).append _
    | hit sc dom ip now => exact (ih h).append _
    | waiting sc dom => exact (ih h).append _
    | complete sc dom answer => exact (ih h).append _
    | closed sc => exact (ih h).append _

/-- Every address that was found in the cache had been delivered less than the time allowed
before. -/
def HitsFresh (trace : List DnsRecord) : Prop :=
  ∀ pre sc domain ip t, pre ++ [.hit sc domain ip t] <+: trace →
    ∃ s, Delivered pre domain ip s ∧ t < s + socks5DnsTtlMs

theorem HitsFresh.concat {trace : List DnsRecord} {e : DnsRecord} (h : HitsFresh trace)
    (hhit : ∀ sc domain ip t, e = .hit sc domain ip t →
      ∃ s, Delivered trace domain ip s ∧ t < s + socks5DnsTtlMs) : HitsFresh (trace ++ [e]) := by
  intro pre sc domain ip t hpre
  rcases List.prefix_concat_iff.1 hpre with heq | hpre
  · obtain ⟨rfl, he⟩ := List.append_inj' heq rfl
    exact hhit sc domain ip t (List.cons.inj he).1.symm
  · exact h pre sc domain ip t hpre

/-! ### The invariant -/

/-- The record allows the address for the domain until `x`: it is the last answer, and `x` counts
from it or from a question since. -/
def Stands (trace : List DnsRecord) (domain : DomainName) (ip : InAddr) (x : ℕ) : Prop :=
  ∃ l, lastAnswer domain trace = some l ∧ l.ip = ip ∧
    (x = l.time + socks5DnsTtlMs ∨ ∃ r ∈ l.since, x = r + socks5DnsTtlMs)

/-- What the cache serves stands in the record, and never while a query for the domain is in
flight, of which there is one at most. -/
structure CacheInv (d : Dns) : Prop where
  stands : ∀ domain ip x, Serves d.cache domain ip x → Stands d.trace domain ip x
  apart : ∀ domain ∈ d.queries.map DnsQuery.domain, ∀ ip x, ¬ Serves d.cache domain ip x
  distinct : (d.queries.map DnsQuery.domain).Nodup
  off : d.cacheEnabled = false → ∀ domain ip x, ¬ Serves d.cache domain ip x
  fresh : HitsFresh d.trace

/-- An entry of the record that says nothing about the cache. -/
def DnsRecord.isQuiet : DnsRecord → Bool
  | .waiting _ _ | .complete _ _ _ | .closed _ => true
  | _ => false

theorem lastAnswer_append {new : List DnsRecord} (hnew : ∀ e ∈ new, e.isQuiet = true)
    (domain : DomainName) (trace : List DnsRecord) :
    lastAnswer domain (trace ++ new) = lastAnswer domain trace := by
  induction new using List.reverseRecOn with
  | nil => rw [List.append_nil]
  | append_singleton new e ih =>
    obtain ⟨hnew, he⟩ := List.forall_mem_append.1 hnew
    rw [← List.append_assoc, lastAnswer_concat, ih hnew]
    have hkept := he e (List.mem_singleton_self e)
    cases e <;> first | rfl | cases hkept

theorem HitsFresh.append {trace new : List DnsRecord} (h : HitsFresh trace)
    (hnew : ∀ e ∈ new, e.isQuiet = true) : HitsFresh (trace ++ new) := by
  induction new using List.reverseRecOn with
  | nil => rwa [List.append_nil]
  | append_singleton new e ih =>
    obtain ⟨hnew, he⟩ := List.forall_mem_append.1 hnew
    rw [← List.append_assoc]
    refine (ih hnew).concat ?_
    rintro sc domain ip t rfl
    cases he _ (List.mem_singleton_self _)

/-- No question and no answer, and no query for another domain. -/
structure Aside (d d' : Dns) : Prop where
  enabled : d'.cacheEnabled = d.cacheEnabled
  queries : (d'.queries.map DnsQuery.domain).Sublist (d.queries.map DnsQuery.domain)
  trace : ∃ new, d'.trace = d.trace ++ new ∧ ∀ e ∈ new, e.isQuiet = true

/-- The cache is left alone as well. -/
structure CacheKept (d d' : Dns) : Prop extends Aside d d' where
  cache : d'.cache = d.cache

section Frames

variable {d d' d'' : Dns}

theorem Aside.refl (d : Dns) : Aside d d := ⟨rfl, List.Sublist.refl _, [], by simp, by simp⟩

theorem Aside.trans (h : Aside d d') (h' : Aside d' d'') : Aside d d'' where
  enabled := h'.enabled.trans h.enabled
  queries := h'.queries.trans h.queries
  trace := by
    obtain ⟨new, hnew, hall⟩ := h.trace
    obtain ⟨new', hnew', hall'⟩ := h'.trace
    refine ⟨new ++ new', by rw [hnew', hnew, List.append_assoc], ?_⟩
    exact List.forall_mem_append.2 ⟨hall, hall'⟩

theorem CacheKept.refl (d : Dns) : CacheKept d d := ⟨.refl d, rfl⟩

theorem CacheKept.trans (h : CacheKept d d') (h' : CacheKept d' d'') : CacheKept d d'' :=
  ⟨h.toAside.trans h'.toAside, h'.cache.trans h.cache⟩

theorem cacheKept_log {e : DnsRecord} (he : e.isQuiet = true) (d : Dns) : CacheKept d (d.log e) :=
  ⟨⟨rfl, List.Sublist.refl _, [e], rfl, by simpa using he⟩, rfl⟩

theorem cacheKept_updateConn (d : Dns) (sc : ℕ) (f : DnsConn → DnsConn) : CacheKept d (d.updateConn sc f) :=
  ⟨⟨rfl, List.Sublist.refl _, [], by simp [Dns.updateConn], by simp⟩, rfl⟩

/-- Queries that keep their domains. -/
theorem cacheKept_map {f : DnsQuery → DnsQuery} (hf : ∀ q, (f q).domain = q.domain) (d : Dns) :
    CacheKept d { d with queries := d.queries.map f } := by
  refine ⟨⟨rfl, ?_, [], by simp, by simp⟩, rfl⟩
  have hsame : (d.queries.map f).map DnsQuery.domain = d.queries.map DnsQuery.domain := by
    rw [List.map_map]
    exact List.map_congr_left fun q _ => hf q
  rw [hsame]

theorem cacheKept_queryUnlink (addr : ℕ) (d : Dns) : CacheKept d (d.queryUnlink addr) :=
  ⟨⟨rfl, (List.eraseP_sublist).map _, [], by simp [Dns.queryUnlink], by simp⟩, rfl⟩

variable (env : DnsEnv)

theorem cacheKept_queryRemoveWaiter (addr sc : ℕ) (d : Dns) :
    CacheKept d (d.queryRemoveWaiter env addr sc) := by
  unfold Dns.queryRemoveWaiter
  simp only
  refine CacheKept.trans (cacheKept_map (fun q => ?_) d) (cacheKept_updateConn _ sc _)
  split_ifs <;> rfl

theorem cacheKept_connClose (sc : ℕ) (d : Dns) : CacheKept d (d.connClose env sc) := by
  unfold Dns.connClose
  split_ifs
  · exact .refl d
  · have hclosed := (@cacheKept_log (.closed sc) rfl d).trans
      (cacheKept_updateConn _ sc fun conn => { conn with closed := true })
    simp only
    split
    · exact hclosed
    · exact hclosed.trans (cacheKept_queryRemoveWaiter env _ sc _)

theorem Stands.aside {domain : DomainName} {ip : InAddr} {x : ℕ}
    (h : Stands d.trace domain ip x) (haside : Aside d d') : Stands d'.trace domain ip x := by
  obtain ⟨new, hnew, hall⟩ := haside.trace
  rw [Stands, hnew, lastAnswer_append hall]
  exact h

/-- What leaves the cache alone keeps the invariant. -/
theorem CacheInv.kept (h : CacheInv d) (hkept : CacheKept d d') : CacheInv d' where
  stands domain ip x hserves := by
    rw [hkept.cache] at hserves
    exact (h.stands domain ip x hserves).aside hkept.toAside
  apart domain hmem ip x := by
    rw [hkept.cache]
    exact h.apart domain (hkept.queries.subset hmem) ip x
  distinct := h.distinct.sublist hkept.queries
  off henabled := by
    rw [hkept.cache]
    exact h.off (hkept.enabled.symm.trans henabled)
  fresh := by
    obtain ⟨new, hnew, hall⟩ := hkept.trace
    rw [hnew]
    exact h.fresh.append hall

theorem aside_cacheStore (domain : DomainName) (ip : InAddr) (d : Dns) :
    Aside d (d.cacheStore env domain ip) := by
  unfold Dns.cacheStore
  split_ifs
  · exact ⟨rfl, List.Sublist.refl _, [], by simp, by simp⟩
  · exact .refl d

/-- An address that stands in the record is stored. -/
theorem CacheInv.cacheStore (h : CacheInv d) {domain : DomainName} {ip : InAddr}
    (hstands : Stands d.trace domain ip (env.now + socks5DnsTtlMs))
    (hapart : domain ∉ d.queries.map DnsQuery.domain) :
    CacheInv (d.cacheStore env domain ip) := by
  unfold Dns.cacheStore
  split_ifs with henabled
  · refine ⟨fun dom ip' x hserves => ?_, fun dom hmem ip' x hserves => ?_, h.distinct,
      fun hoff => ?_, h.fresh⟩
    · rcases serves_dnsCacheStore hserves with ⟨rfl, rfl, rfl⟩ | hold
      · exact hstands
      · exact h.stands dom ip' x hold
    · rcases serves_dnsCacheStore hserves with ⟨rfl, -, -⟩ | hold
      · exact hapart hmem
      · exact h.apart dom hmem ip' x hold
    · rw [henabled] at hoff
      cases hoff
  · exact h

/-- The answer may be stored: it stands in the record, and no query for the domain is in flight. -/
def Storable (d : Dns) (domain : DomainName) (answer : Answer) : Prop :=
  0 ≤ answer.status → answer.family = .inet →
    Stands d.trace domain answer.ip (env.now + socks5DnsTtlMs) ∧
      domain ∉ d.queries.map DnsQuery.domain

theorem Storable.aside {domain : DomainName} {answer : Answer}
    (h : Storable env d domain answer) (haside : Aside d d') : Storable env d' domain answer := by
  intro hstatus hfamily
  obtain ⟨hstands, hapart⟩ := h hstatus hfamily
  exact ⟨hstands.aside haside, fun hmem => hapart (haside.queries.subset hmem)⟩

/-- `resolve_complete` stores what may be stored. -/
theorem cacheInv_resolveComplete (h : CacheInv d) (sc : ℕ) {domain : DomainName} {answer : Answer}
    (hstore : Storable env d domain answer) :
    CacheInv (d.resolveComplete env sc domain answer) ∧
      Aside d (d.resolveComplete env sc domain answer) := by
  unfold Dns.resolveComplete
  by_cases hclosed : (d.conns sc).closed
  · rw [if_pos hclosed]
    exact ⟨h, .refl d⟩
  rw [if_neg hclosed]
  simp only
  have hlog := @cacheKept_log (.complete sc domain answer) rfl d
  by_cases hfail : answer.status < 0 ∨ answer.family = .unspec
  · rw [if_pos hfail]
    have hboth := hlog.trans (cacheKept_connClose env sc _)
    exact ⟨h.kept hboth, hboth.toAside⟩
  rw [if_neg hfail]
  obtain ⟨hstatus, -⟩ := not_or.1 hfail
  -- the address is stored, and the connection perhaps closed
  generalize hd1 : (if answer.family = .inet then
    (d.log (.complete sc domain answer)).cacheStore env domain answer.ip
    else d.log (.complete sc domain answer)) = d1
  have h1 : CacheInv d1 ∧ Aside d d1 := by
    rw [← hd1]
    split_ifs with hinet
    · obtain ⟨hstands, hapart⟩ := (hstore.aside env hlog.toAside) (by omega) hinet
      exact ⟨(h.kept hlog).cacheStore env hstands hapart,
        hlog.toAside.trans (aside_cacheStore env _ _ _)⟩
    · exact ⟨h.kept hlog, hlog.toAside⟩
  split_ifs
  · exact h1
  · have hclose := cacheKept_connClose env sc d1
    exact ⟨h1.1.kept hclose, h1.2.trans hclose.toAside⟩

theorem cacheInv_finishWaiter (h : CacheInv d) (sc : ℕ) {domain : DomainName} {answer : Answer}
    (hstore : Storable env d domain answer) :
    CacheInv (d.finishWaiter env domain answer sc) ∧
      Aside d (d.finishWaiter env domain answer sc) := by
  unfold Dns.finishWaiter
  have hupdate := cacheKept_updateConn d sc fun conn => { conn with resolveReq := none }
  simp only
  split_ifs
  · have hboth := hupdate.trans (cacheKept_connClose env sc _)
    exact ⟨h.kept hboth, hboth.toAside⟩
  · obtain ⟨hinv, haside⟩ := cacheInv_resolveComplete env (h.kept hupdate) sc
      (hstore.aside env hupdate.toAside)
    exact ⟨hinv, hupdate.toAside.trans haside⟩

/-- Every waiter is given the answer. -/
theorem cacheInv_finishWaiters (waiters : List ℕ) {domain : DomainName} {answer : Answer} {d : Dns}
    (h : CacheInv d) (hstore : Storable env d domain answer) :
    CacheInv (waiters.foldl (Dns.finishWaiter env domain answer) d) := by
  induction waiters generalizing d with
  | nil => exact h
  | cons sc waiters ih =>
    obtain ⟨hinv, haside⟩ := cacheInv_finishWaiter env h sc hstore
    exact ih hinv (hstore.aside env haside)

/-- The resolver's answer is stored, and given to those who wait. -/
theorem cacheInv_queryFinish (h : CacheInv d) {q : DnsQuery}
    (hfind : d.queries.find? (fun p => p.addr = q.addr) = some q) (result : ResolverResult) :
    CacheInv (d.queryFinish env q result) := by
  have hmem : q.domain ∈ d.queries.map DnsQuery.domain :=
    List.mem_map_of_mem (List.mem_of_find?_eq_some hfind)
  unfold Dns.queryFinish
  simp only
  generalize hd1 : (d.log (.answered q result env.now)).queryUnlink q.addr = d1
  have htrace : d1.trace = d.trace ++ [.answered q result env.now] := by rw [← hd1]; rfl
  have hcache : d1.cache = d.cache := by rw [← hd1]; rfl
  have hqueries : d1.queries = d.queries.eraseP fun p => p.addr = q.addr := by rw [← hd1]; rfl
  have henabled : d1.cacheEnabled = d.cacheEnabled := by rw [← hd1]; rfl
  have hsub : (d1.queries.map DnsQuery.domain).Sublist (d.queries.map DnsQuery.domain) := by
    rw [hqueries]
    exact List.eraseP_sublist.map _
  have hinv : CacheInv d1 := by
    refine ⟨fun dom ip x hserves => ?_, fun dom hdom ip x => ?_, h.distinct.sublist hsub, ?_, ?_⟩
    · -- what is served is for other domains
      rw [hcache] at hserves
      have hne : ¬ (q.domain = dom ∧ 0 ≤ (q.answer result).status ∧
          (q.answer result).family = .inet) := by
        rintro ⟨rfl, -⟩
        exact h.apart _ hmem ip x hserves
      rw [Stands, htrace, lastAnswer_concat, lastAnswerStep, if_neg hne]
      exact h.stands dom ip x hserves
    · rw [hcache]
      exact h.apart dom (hsub.subset hdom) ip x
    · rw [henabled, hcache]
      exact h.off
    · rw [htrace]
      exact h.fresh.concat (by nofun)
  have hstore : Storable env d1 q.domain (q.answer result) := by
    intro hstatus hfamily
    refine ⟨⟨⟨(q.answer result).ip, env.now, []⟩, ?_, rfl, .inl rfl⟩, ?_⟩
    · rw [htrace, lastAnswer_concat, lastAnswerStep, if_pos ⟨rfl, hstatus, hfamily⟩]
    · rw [hqueries]
      exact not_mem_map_eraseP hfind h.distinct
  refine cacheInv_finishWaiters env q.waiters ?_ ?_
  · split_ifs with hip
    · obtain ⟨hstands, hapart⟩ := hstore hip.1 hip.2
      exact hinv.cacheStore env hstands hapart
    · exact hinv
  · split_ifs
    · exact hstore.aside env (aside_cacheStore env _ _ _)
    · exact hstore

theorem cacheInv_resolverCallback (h : CacheInv d) (addr : ℕ) (result : ResolverResult) :
    CacheInv (d.resolverCallback env addr result) := by
  unfold Dns.resolverCallback
  cases hfind : d.queries.find? fun q => q.addr = addr with
  | none => exact h
  | some q =>
    have haddr : q.addr = addr := by simpa using List.find?_some hfind
    refine cacheInv_queryFinish env h ?_ result
    rw [haddr]
    exact hfind

/-- A query for a domain that the cache does not serve. -/
theorem CacheInv.queryInsert (h : CacheInv d) (addr sc : ℕ) {domain : DomainName}
    (hnew : domain ∉ d.queries.map DnsQuery.domain)
    (hnone : ∀ ip x, ¬ Serves d.cache domain ip x) : CacheInv (d.queryInsert addr sc domain) where
  stands := h.stands
  apart dom hdom ip x := by
    rcases List.mem_cons.1 hdom with rfl | hdom
    · exact hnone ip x
    · exact h.apart dom hdom ip x
  distinct := List.nodup_cons.2 ⟨hnew, h.distinct⟩
  off := h.off
  fresh := h.fresh

/-- A query is started for a domain that the cache does not serve. -/
theorem cacheInv_startQuery (h : CacheInv d) (sc : ℕ) {domain : DomainName}
    (hnone : ∀ ip x, ¬ Serves d.cache domain ip x) :
    CacheInv (d.startQuery env sc domain).2 := by
  have hwaiting := @cacheKept_log (.waiting sc domain) rfl d
  unfold Dns.startQuery
  cases hfind : d.queryFind domain with
  | some q =>
    refine h.kept (hwaiting.trans ?_)
    unfold Dns.queryAddWaiter
    simp only
    refine CacheKept.trans (cacheKept_map (fun p => ?_) _) (cacheKept_updateConn _ sc _)
    split_ifs <;> rfl
  | none =>
    have hnew : domain ∉ d.queries.map DnsQuery.domain := by
      intro hmem
      obtain ⟨q, hq, heq⟩ := List.mem_map.1 hmem
      have hno := List.find?_eq_none.1 hfind q hq
      simp [heq] at hno
    cases env.calloc with
    | none => exact h
    | some addr =>
      simp only
      have hinv := (h.kept hwaiting).queryInsert addr sc hnew hnone
      split_ifs
      · cases env.sync with
        | none => exact hinv
        | some result => exact cacheInv_resolverCallback env hinv addr result
      · simp only
        exact hinv.kept ((cacheKept_queryUnlink addr _).trans (cacheKept_updateConn _ sc _))
      · exact hinv

end Frames

/-! ### The time that a question adds -/

/-- The table has a valid entry for the domain. -/
def Holds (cache : List DnsEntry) (domain : DomainName) : Prop :=
  ∃ entry ∈ cache, entry.valid = true ∧ entry.domain = domain

instance (cache : List DnsEntry) (domain : DomainName) : Decidable (Holds cache domain) :=
  inferInstanceAs (Decidable (∃ entry ∈ cache, _ ∧ _))

/-- No question for a domain that the cache holds comes in the time that only an earlier question
has added: when the last answer is older than the time allowed, and a question since is not. -/
def Unrenewed (d : Dns) (e : DnsEnv × DnsEvent) : Prop :=
  match e.2 with
  | .request _ domain => Holds d.cache domain → ∀ l ∈ lastAnswer domain d.trace, ∀ r ∈ l.since,
    ¬ (l.time + socks5DnsTtlMs ≤ e.1.now ∧ e.1.now < r + socks5DnsTtlMs)
  | _ => True

instance (d : Dns) : ∀ e, Decidable (Unrenewed d e)
  | (env, .request _ domain) => inferInstanceAs (Decidable (Holds d.cache domain →
      ∀ l ∈ lastAnswer domain d.trace, ∀ r ∈ l.since,
        ¬ (l.time + socks5DnsTtlMs ≤ env.now ∧ env.now < r + socks5DnsTtlMs)))
  | (_, .answer _ _) | (_, .close _) | (_, .stop) => inferInstanceAs (Decidable True)

section Step

variable {d : Dns} (env : DnsEnv)

/-- A question adds time, and takes none. -/
theorem Stands.asked {trace : List DnsRecord} {dom : DomainName} {ip : InAddr} {x : ℕ}
    (h : Stands trace dom ip x) (sc : ℕ) (domain : DomainName) (now : ℕ) :
    Stands (trace ++ [.asked sc domain now]) dom ip x := by
  obtain ⟨l, hl, hip, hx⟩ := h
  rw [Stands, lastAnswer_concat, lastAnswerStep, hl]
  split_ifs
  · exact ⟨_, rfl, hip, hx.imp_right fun ⟨r, hr, hxr⟩ => ⟨r, List.mem_cons_of_mem _ hr, hxr⟩⟩
  · exact ⟨l, rfl, hip, hx⟩

/-- The address that is found for a question is not older than the time allowed, if the question is
not one that only an earlier question has given time to. -/
theorem fresh_of_serves (h : CacheInv d) {domain : DomainName} {ip : InAddr} {x : ℕ}
    (hserves : Serves d.cache domain ip x) (hgood : env.now < x) {sc : ℕ}
    (hok : Unrenewed d (env, .request sc domain)) :
    ∃ s, Delivered d.trace domain ip s ∧ env.now < s + socks5DnsTtlMs := by
  obtain ⟨l, hl, rfl, hx⟩ := h.stands domain ip x hserves
  refine ⟨l.time, delivered_of_lastAnswer hl, ?_⟩
  rcases hx with rfl | ⟨r, hr, rfl⟩
  · exact hgood
  · obtain ⟨entry, hmem, hvalid, hdomain, -⟩ := hserves
    have hno := hok ⟨entry, hmem, hvalid, hdomain⟩ l hl r hr
    simp only at hno
    omega

theorem cacheInv_request (h : CacheInv d) (sc : ℕ) (domain : DomainName)
    (hok : Unrenewed d (env, .request sc domain)) : CacheInv (d.request env sc domain) := by
  unfold Dns.request
  simp only
  generalize hlook : (if ((d.log (.asked sc domain env.now)).updateConn sc
      fun conn => { conn with asked := true }).cacheEnabled then
      dnsCacheLookup domain env.now ((d.log (.asked sc domain env.now)).updateConn sc
        fun conn => { conn with asked := true }).cache
    else (none, ((d.log (.asked sc domain env.now)).updateConn sc
        fun conn => { conn with asked := true }).cache)) = look
  have hlook : (if d.cacheEnabled then dnsCacheLookup domain env.now d.cache else (none, d.cache)) =
      look := hlook
  have hless : ∀ dom ip x, Serves look.2 dom ip x → Serves d.cache dom ip x := by
    rw [← hlook]
    split_ifs
    · exact fun _ _ _ => serves_dnsCacheLookup
    · exact fun _ _ _ => id
  -- the question is recorded
  generalize hd1 : ({ (d.log (.asked sc domain env.now)).updateConn sc
    (fun conn => { conn with asked := true }) with cache := look.2 } : Dns) = d1
  have htrace : d1.trace = d.trace ++ [.asked sc domain env.now] := by rw [← hd1]; rfl
  have hcache : d1.cache = look.2 := by rw [← hd1]
  have hqueries : d1.queries = d.queries := by rw [← hd1]; rfl
  have henabled : d1.cacheEnabled = d.cacheEnabled := by rw [← hd1]; rfl
  have hinv : CacheInv d1 := by
    refine ⟨fun dom ip x hserves => ?_, fun dom hdom ip x hserves => ?_, ?_,
      fun hoff dom ip x hserves => ?_, ?_⟩
    · rw [hcache] at hserves
      rw [htrace]
      exact (h.stands dom ip x (hless dom ip x hserves)).asked sc domain env.now
    · rw [hcache] at hserves
      rw [hqueries] at hdom
      exact h.apart dom hdom ip x (hless dom ip x hserves)
    · rw [hqueries]
      exact h.distinct
    · rw [hcache] at hserves
      exact h.off (henabled.symm.trans hoff) dom ip x (hless dom ip x hserves)
    · rw [htrace]
      exact h.fresh.concat (by nofun)
  cases hfound : look.1 with
  | some ip =>
    obtain ⟨x, hserves, hgood⟩ : ∃ x, Serves d.cache domain ip x ∧ env.now < x := by
      rw [← hlook] at hfound
      split_ifs at hfound
      exact dnsCacheLookup_some hfound
    have hstands := (h.stands domain ip x hserves).asked sc domain env.now
    obtain ⟨s, hdelivered, hfresh⟩ := fresh_of_serves env h hserves hgood hok
    have hhit : CacheInv (d1.log (.hit sc domain ip env.now)) := by
      refine ⟨fun dom ip' x' hserves' => ?_, hinv.apart, hinv.distinct, hinv.off, ?_⟩
      · have hold := hinv.stands dom ip' x' hserves'
        rw [Stands, Dns.log, lastAnswer_hit]
        exact hold
      · refine hinv.fresh.concat fun sc' dom ip' t heq => ?_
        cases heq
        rw [htrace]
        exact ⟨s, hdelivered.append _, hfresh⟩
    refine (cacheInv_resolveComplete env hhit sc fun _ _ => ⟨?_, ?_⟩).1
    · -- the question itself adds the time
      obtain ⟨l, hl, hip, -⟩ := h.stands domain ip x hserves
      rw [Stands, Dns.log, lastAnswer_hit, htrace, lastAnswer_concat, lastAnswerStep, if_pos rfl,
        hl]
      exact ⟨_, rfl, hip, .inr ⟨env.now, List.mem_cons_self, rfl⟩⟩
    · intro hmem
      change domain ∈ d1.queries.map DnsQuery.domain at hmem
      rw [hqueries] at hmem
      exact h.apart domain hmem ip x hserves
  | none =>
    have hnone : ∀ ip x, ¬ Serves d1.cache domain ip x := by
      intro ip x
      rw [hcache]
      rw [← hlook] at hfound ⊢
      split_ifs at hfound ⊢ with hon
      · exact dnsCacheLookup_none hfound
      · exact h.off (by simpa using hon) domain ip x
    have hstart := cacheInv_startQuery env hinv sc hnone
    simp only
    split_ifs
    · exact hstart
    · exact hstart.kept (cacheKept_connClose env sc _)

theorem cacheInv_stop (h : CacheInv d) : CacheInv (d.stop env) := by
  unfold Dns.stop
  split_ifs
  · simp only
    have hcalls : ∀ (addrs : List ℕ) (d : Dns), CacheInv d → CacheInv (addrs.foldl
        (fun d addr => d.resolverCallback env addr ⟨aresEcancelled, none⟩) d) := by
      intro addrs
      induction addrs with
      | nil => exact fun _ h => h
      | cons addr addrs ih => exact fun d h => ih _ (cacheInv_resolverCallback env h addr _)
    have hinv := hcalls ((d.queries.filter DnsQuery.cares).map DnsQuery.addr)
      { d with shuttingDown := true } ⟨h.stands, h.apart, h.distinct, h.off, h.fresh⟩
    exact ⟨hinv.stands, hinv.apart, hinv.distinct, hinv.off, hinv.fresh⟩
  · exact h

/-- Every event but a question in the time that only a question has added keeps the invariant. -/
theorem cacheInv_step (h : CacheInv d) {e : DnsEnv × DnsEvent} (hok : Unrenewed d e) :
    CacheInv (dnsStep d e) := by
  obtain ⟨env, e⟩ := e
  unfold dnsStep
  split_ifs
  · cases e with
    | request sc domain => exact cacheInv_request env h sc domain hok
    | answer addr result => exact cacheInv_resolverCallback env h addr result
    | close sc => exact h.kept (cacheKept_connClose env sc d)
    | stop => exact cacheInv_stop env h
  · exact h

end Step

theorem cacheInv_init (cacheEnabled usingCares : Bool) :
    CacheInv (.init cacheEnabled usingCares) := by
  have hempty : ∀ domain ip x, ¬ Serves (Dns.init cacheEnabled usingCares).cache domain ip x := by
    rintro domain ip x ⟨entry, hmem, hvalid, -⟩
    rw [List.eq_of_mem_replicate hmem] at hvalid
    cases hvalid
  refine ⟨fun domain ip x h => absurd h (hempty domain ip x), nofun, List.nodup_nil,
    fun _ => hempty, fun pre sc domain ip t hpre => ?_⟩
  have hlen := hpre.length_le
  simp [Dns.init] at hlen

/-- **The cache serves no old answers**, in every run in which no question comes in the time that
only an earlier question has added: each address that a connection finds was delivered for its
domain less than the time allowed before. -/
theorem cached_answer_fresh (cacheEnabled usingCares : Bool) (es : List (DnsEnv × DnsEvent))
    (hok : Machine.Guarded dnsStep Unrenewed (.init cacheEnabled usingCares) es) :
    HitsFresh (dnsRun cacheEnabled usingCares es).trace :=
  (@Machine.run_induction _ _ dnsStep Unrenewed CacheInv (fun _ _ h hok => cacheInv_step h hok)
    (.init cacheEnabled usingCares) (cacheInv_init cacheEnabled usingCares) es hok).fresh

/-! ### Three questions for one domain -/

/-- An environment at the time `now` in which a new query is at the address 1. -/
def dnsEnvAt (now : ℕ) : DnsEnv := ⟨now, some 1, 0, none, true, fun _ => true⟩

/-- The domain `a.b`. -/
def exampleDomain : DomainName := ⟨[97, 46, 98], by decide, by decide⟩

/-- The resolver is asked at the time 0 and answers at once; at the times `times` the connections 1,
2, … ask again. -/
def askAgain (times : List ℕ) : List (DnsEnv × DnsEvent) :=
  [(dnsEnvAt 0, .request 0 exampleDomain),
    (dnsEnvAt 0, .answer 1 ⟨0, some [.inet (Vector.replicate 4 10)]⟩)] ++
  times.mapIdx fun i now => (dnsEnvAt now, .request (i + 1) exampleDomain)

/-- The addresses that were found: by whom, for what, and when. -/
def hitsOf (trace : List DnsRecord) : List (ℕ × DomainName × InAddr × ℕ) :=
  trace.filterMap fun | .hit sc domain ip t => some (sc, domain, ip, t) | _ => none

theorem HitsFresh.delivered {trace : List DnsRecord} (h : HitsFresh trace) {sc t : ℕ}
    {domain : DomainName} {ip : InAddr} (hhit : (sc, domain, ip, t) ∈ hitsOf trace) :
    ∃ s, Delivered trace domain ip s ∧ t < s + socks5DnsTtlMs := by
  obtain ⟨e, hmem, he⟩ := List.mem_filterMap.1 hhit
  obtain ⟨pre, post, rfl⟩ := List.append_of_mem hmem
  cases e with
  | hit sc' domain' ip' t' =>
    cases he
    obtain ⟨s, hs, hlt⟩ := h pre sc domain ip t ⟨post, by simp⟩
    exact ⟨s, hs.append _, hlt⟩
  | _ => cases he

/-- Twenty seconds after the answer, the address is found in the cache. -/
theorem cached_answer_fresh_found :
    Machine.Guarded dnsStep Unrenewed (.init true false) (askAgain [20000]) ∧
      hitsOf (dnsRun true false (askAgain [20000])).trace =
        [(1, exampleDomain, Vector.replicate 4 10, 20000)] ∧
      HitsFresh (dnsRun true false (askAgain [20000])).trace := by
  have hok : Machine.Guarded dnsStep Unrenewed (.init true false) (askAgain [20000]) := by
    decide +kernel
  exact ⟨hok, by decide +kernel, cached_answer_fresh true false _ hok⟩

/-- Twenty seconds later still, it is found as well, forty seconds after it was delivered. -/
theorem renewed_answer_stale :
    hitsOf (dnsRun true false (askAgain [20000, 40000])).trace =
        [(1, exampleDomain, Vector.replicate 4 10, 20000),
          (2, exampleDomain, Vector.replicate 4 10, 40000)] ∧
      ¬ HitsFresh (dnsRun true false (askAgain [20000, 40000])).trace := by
  have hhits : hitsOf (dnsRun true false (askAgain [20000, 40000])).trace =
      [(1, exampleDomain, Vector.replicate 4 10, 20000),
        (2, exampleDomain, Vector.replicate 4 10, 40000)] := by decide +kernel
  refine ⟨hhits, fun hfresh => ?_⟩
  obtain ⟨s, ⟨q, result, hmem, -⟩, hlt⟩ :=
    @HitsFresh.delivered _ hfresh 2 40000 exampleDomain (Vector.replicate 4 10)
      (by rw [hhits]; simp)
  -- the resolver has answered at the time 0 only
  have htimes : (dnsRun true false (askAgain [20000, 40000])).trace.filterMap
      (fun | .answered _ _ s => some s | _ => none) = [0] := by decide +kernel
  have hzero : s ∈ [0] := htimes ▸ List.mem_filterMap.2 ⟨_, hmem, rfl⟩
  rw [List.mem_singleton.1 hzero] at hlt
  exact absurd hlt (by decide)

end Wgx
