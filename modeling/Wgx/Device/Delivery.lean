import Wgx.Device.Roaming

/-!
# What a tunnel delivers

The filter of a keypair lives as long as the keypair does, whatever happens to the device in
between: rekeying moves keypairs from slot to slot, SET requests change the peers, timers erase the
keys.  So no message of a session is accepted twice, and what the peer at the other end has sealed
is delivered at most once.

* `arrivals`: the transport messages accepted during a run, and what was written for each;
* `FilterInv`: each filter represents the counters accepted under its keypair;
* `delivered_once`: no counter of a keypair is accepted twice, and everything that is written comes
  from a message that was accepted;
* `tunnel_integrity`: the packets written for a session are among those that were handed to
  `device_send_to_peer` at its other end, each at most once.
-/

namespace Wgx

/-! ### Arrivals -/

/-- A transport message that was accepted, and what was written to the TUN device for it. -/
structure Arrival where
  keypair : ℕ
  key : List Byte
  counter : BitVec 64
  plaintext : List Byte
  tun : List (List Byte)

section Arrivals

variable (c : Crypto)

/-- The message that an event brings, if it is accepted. -/
def arrivalOf (dev : Device) : LifeEvent → Option Arrival
  | .device (.recv env fuel src (.transport msg)) =>
    (acceptedTransport c dev msg).map fun t => ⟨t.2.1.addr, t.2.1.recvKey, msg.counter, t.2.2,
      (lifeStep c dev (.device (.recv env fuel src (.transport msg)))).tun⟩
  | _ => none

/-- The transport messages accepted during a run, oldest first. -/
def arrivals : Device → List LifeEvent → List Arrival
  | _, [] => []
  | dev, e :: es => (arrivalOf c dev e).toList ++ arrivals (lifeStep c dev e).dev es

/-- The packets written to the TUN device during a run, oldest first. -/
def writtenPackets : Device → List LifeEvent → List (List Byte)
  | _, [] => []
  | dev, e :: es => (lifeStep c dev e).tun ++ writtenPackets (lifeStep c dev e).dev es

/-- Under which keypair and counter a message was accepted. -/
def Arrival.label (a : Arrival) : ℕ × BitVec 64 := (a.keypair, a.counter)

/-- The counters accepted under the keypair at `addr`. -/
def seenUnder (addr : ℕ) (as : List Arrival) : Finset ℕ :=
  ((as.filter fun a => a.keypair = addr).map fun a => a.counter.toNat).toFinset

/-- Each filter represents the counters accepted under its keypair, and none was accepted twice. -/
structure FilterInv (dev : Device) (as : List Arrival) : Prop where
  allocated : ∀ a ∈ as, a.keypair < dev.nextAddr
  filters : ∀ p ∈ dev.peers, ∀ kp ∈ p.keypairs,
    Replay.Represents kp.replay (seenUnder kp.addr as)
  nodup : (as.map Arrival.label).Nodup

end Arrivals

section Steps

variable {c : Crypto} {dev : Device} {e : LifeEvent} {as : List Arrival} {a : Arrival}

theorem acceptedBy_eq_arrivalOf (dev : Device) (e : LifeEvent) : acceptedBy c dev e =
    (arrivalOf c dev e).map fun a => (a.keypair, a.counter, a.plaintext) := by
  unfold arrivalOf
  split
  · rw [Option.map_map]
    rfl
  next hother =>
    unfold acceptedBy
    split
    · exact (hother _ _ _ _ rfl).elim
    · rfl

@[simp] theorem seenUnder_append (addr : ℕ) (as as' : List Arrival) :
    seenUnder addr (as ++ as') = seenUnder addr as ∪ seenUnder addr as' := by
  simp [seenUnder]

theorem seenUnder_singleton (addr : ℕ) (a : Arrival) :
    seenUnder addr [a] = if a.keypair = addr then {a.counter.toNat} else ∅ := by
  unfold seenUnder
  by_cases h : a.keypair = addr
  · simp [h]
  · simp [h]

theorem mem_seenUnder {addr n : ℕ} :
    n ∈ seenUnder addr as ↔ ∃ a ∈ as, a.keypair = addr ∧ a.counter.toNat = n := by
  simp [seenUnder, and_assoc]

/-- The address of a new keypair has accepted nothing. -/
theorem FilterInv.seen_empty (h : FilterInv dev as) {addr : ℕ} (haddr : dev.nextAddr ≤ addr) :
    seenUnder addr as = ∅ := by
  rw [Finset.eq_empty_iff_forall_notMem]
  intro n hn
  obtain ⟨a, ha, rfl, -⟩ := mem_seenUnder.1 hn
  exact absurd (h.allocated a ha) haddr.not_gt

/-- An accepted message has a counter that the filter of its keypair takes. -/
theorem arrival_cases (h : arrivalOf c dev e = some a) :
    ∃ p ∈ dev.peers, ∃ kp ∈ p.keypairs, kp.addr = a.keypair ∧ kp.recvKey = a.key ∧
      (Replay.replayCommit kp.replay a.counter rejectAfterMessages).1 = true ∧
      ∃ env fuel src msg, e = .device (.recv env fuel src (.transport msg)) ∧
        msg.counter = a.counter ∧
        c.aeadDecrypt a.key (transportNonce a.counter) msg.content [] = some a.plaintext := by
  unfold arrivalOf at h
  split at h
  next env fuel src msg =>
    obtain ⟨t, ht, rfl⟩ := Option.map_eq_some_iff.1 h
    rcases handleTransport_cases c env dev src msg with
      ⟨hout, -⟩ | ⟨peer, kp, plaintext, replay, haccept, hp, hkp, hopen, hcommit, -⟩
    · rw [hout] at ht
      cases ht
    · rw [haccept] at ht
      cases ht
      exact ⟨peer, hp, kp, hkp, rfl, rfl, congrArg Prod.fst hcommit, env, fuel, src, msg, rfl, rfl,
        hopen⟩
  · cases h

/-! ### The filters -/

/-- A counter that the filter takes joins the counters that it represents. -/
theorem FilterInv.commit (h : FilterInv dev as) {p : Peer} {kp : Keypair} (hp : p ∈ dev.peers)
    (hkp : kp ∈ p.keypairs) {counter : BitVec 64}
    (hcommit : (Replay.replayCommit kp.replay counter rejectAfterMessages).1 = true) :
    counter.toNat ∉ seenUnder kp.addr as ∧ counter < rejectAfterMessages ∧
      Replay.Represents (Replay.replayCommit kp.replay counter rejectAfterMessages).2
        (insert counter.toNat (seenUnder kp.addr as)) := by
  rcases Replay.replayCommit_refines (h.filters p hp kp hkp) counter rejectAfterMessages with
    ⟨-, haccepts, hnext⟩ | ⟨hrefused, -⟩
  · exact ⟨haccepts.2.1, haccepts.1, hnext⟩
  · rw [hrefused] at hcommit
    cases hcommit

/-- Two keypairs in slots of the device have one address only if they are one keypair. -/
theorem DeviceInv.keypair_eq (h : DeviceInv dev) {p q : Peer} {kp kq : Keypair} (hp : p ∈ dev.peers)
    (hq : q ∈ dev.peers) (hkp : kp ∈ p.keypairs) (hkq : kq ∈ q.keypairs)
    (heq : kp.addr = kq.addr) : kp = kq := by
  have haddr := h.owner_unique hp hq hkp hkq heq
  have hpq : p = q := by
    have hat := Device.peerAt_of_mem h.nodup hp
    rw [haddr, Device.peerAt_of_mem h.nodup hq] at hat
    exact (Option.some.inj hat).symm
  subst hpq
  have hmem : kp ∈ p.keypairs.filter fun k => k.addr = kq.addr :=
    List.mem_filter.2 ⟨hkp, by simpa using heq⟩
  rw [h.keypair_unique hp hkq] at hmem
  exact List.mem_singleton.1 hmem

/-- What is accepted under a keypair has a new label. -/
theorem FilterInv.label_notMem (h : FilterInv dev as) (ha : arrivalOf c dev e = some a) :
    a.label ∉ as.map Arrival.label := by
  obtain ⟨p, hp, kp, hkp, haddr, -, hcommit, -⟩ := arrival_cases ha
  intro hmem
  obtain ⟨b, hb, hlabel⟩ := List.mem_map.1 hmem
  obtain ⟨hkeypair, hcounter⟩ := Prod.mk.inj hlabel
  refine (h.commit hp hkp hcommit).1 (mem_seenUnder.2 ⟨b, hb, ?_, ?_⟩)
  · exact hkeypair.trans haddr.symm
  · rw [hcounter]

/-- Traffic keeps the filters. -/
theorem FilterInv.served (h : FilterInv dev as) (hdev : DeviceInv dev) (hs : ServedBy c dev e) :
    FilterInv (lifeStep c dev e).dev (as ++ (arrivalOf c dev e).toList) := by
  refine ⟨?_, ?_, ?_⟩
  · intro b hb
    rcases List.mem_append.1 hb with hb | hb
    · exact (h.allocated b hb).trans_le hs.next
    · obtain ⟨p, hp, kp, hkp, haddr, -⟩ := arrival_cases (Option.mem_toList.1 hb)
      rw [← haddr]
      exact (hdev.keypair_lt hp hkp).trans_le hs.next
  · intro p' hp' kp hkp
    obtain ⟨p, hp, hstep⟩ := forall₂_mem_right hs.peers hp'
    rcases hstep.keypairs kp hkp with ⟨k, hk, haddr, -, hreplay⟩ | ⟨hnew, hreset⟩
    · rw [hreplay, seenUnder_append, haddr, Keypair.filtered, acceptedBy_eq_arrivalOf]
      cases ha : arrivalOf c dev e with
      | none => simpa [seenUnder] using h.filters p hp k hk
      | some a =>
        simp only [Option.map_some, Option.toList_some]
        rw [seenUnder_singleton]
        by_cases hka : k.addr = a.keypair
        · obtain ⟨q, hq, kq, hkq, haddr', -, hcommit, -⟩ := arrival_cases ha
          obtain rfl := hdev.keypair_eq hp hq hk hkq (hka.trans haddr'.symm)
          rw [if_pos hka, if_pos hka.symm, Finset.union_comm, ← Finset.insert_eq]
          exact (h.commit hp hk hcommit).2.2
        · rw [if_neg hka, if_neg (Ne.symm hka), Finset.union_empty]
          exact h.filters p hp k hk
    · rw [hreset, seenUnder_append, h.seen_empty hnew]
      have hnone : seenUnder kp.addr (arrivalOf c dev e).toList = ∅ := by
        cases ha : arrivalOf c dev e with
        | none => rfl
        | some a =>
          obtain ⟨q, hq, kq, hkq, haddr', -⟩ := arrival_cases ha
          have hlt := hdev.keypair_lt hq hkq
          rw [Option.toList_some, seenUnder_singleton, if_neg (by omega)]
      rw [hnone, Finset.empty_union]
      exact Replay.represents_reset
  · rw [List.map_append]
    cases ha : arrivalOf c dev e with
    | none => simpa using h.nodup
    | some a =>
      refine List.Nodup.append h.nodup (List.nodup_singleton _) ?_
      exact List.disjoint_singleton.2 (h.label_notMem ha)

/-- What no traffic is brings no message and writes nothing. -/
theorem arrivalOf_config (h : e.isTraffic = false) :
    arrivalOf c dev e = none ∧ (lifeStep c dev e).tun = [] := by
  rcases e with e | ⟨env, stack, data⟩
  · cases e with
    | removePeer addr =>
      refine ⟨rfl, ?_⟩
      simp only [lifeStep, deviceStep]
      cases dev.peerAt addr <;> rfl
    | setPrivateKey priv => exact ⟨rfl, rfl⟩
    | addPeer pk => exact ⟨rfl, rfl⟩
    | removeAllPeers => exact ⟨rfl, rfl⟩
    | _ => cases h
  · exact ⟨rfl, rfl⟩

theorem reconfigured_lifeStep (h : e.isTraffic = false) : Reconfigured dev (lifeStep c dev e).dev := by
  rcases e with e | ⟨env, stack, data⟩
  · cases e with
    | setPrivateKey priv => exact reconfigured_noiseSetStaticKey priv
    | addPeer pk => exact reconfigured_deviceAddPeer pk
    | removePeer addr =>
      simp only [lifeStep, deviceStep]
      cases hpeer : dev.peerAt addr with
      | none => exact Reconfigured.refl _
      | some peer => exact reconfigured_deviceRemovePeer (Device.mem_of_peerAt hpeer).1
    | removeAllPeers => exact reconfigured_deviceRemoveAllPeers
    | _ => cases h
  · exact reconfigured_processSet stack data

/-- The configuration leaves the keypairs where they are, or throws them away with their peer. -/
theorem Reconfigured.keypairs {dev' : Device} (h : Reconfigured dev dev') {p' : Peer}
    (hp' : p' ∈ dev'.peers) {kp : Keypair} (hkp : kp ∈ p'.keypairs) :
    ∃ p ∈ dev.peers, kp ∈ p.keypairs := by
  have hslots : ∀ k : Clocks, k.Reconf (p'.clocks []) → p'.currentKeypair = k.currentKeypair ∧
      p'.nextKeypair = k.nextKeypair ∧ p'.prevKeypair = k.prevKeypair := by
    rintro k ⟨⟨ms, due, hk⟩, -⟩
    exact ⟨congrArg Clocks.currentKeypair hk, congrArg Clocks.nextKeypair hk,
      congrArg Clocks.prevKeypair hk⟩
  rw [mem_keypairs] at hkp
  rcases h.peers p' hp' with ⟨p, hp, -, hre⟩ | ⟨-, hnew⟩
  · obtain ⟨hcur, hnext, hprev⟩ := hslots _ hre
    refine ⟨p, hp, ?_⟩
    rw [mem_keypairs]
    rwa [hcur, hnext, hprev] at hkp
  · obtain ⟨hcur, hnext, hprev⟩ := hslots _ hnew
    rw [hcur, hnext, hprev] at hkp
    rcases hkp with hkp | hkp | hkp <;> cases hkp

/-- So does the configuration. -/
theorem FilterInv.reconfigured (h : FilterInv dev as) {dev' : Device} (hr : Reconfigured dev dev') :
    FilterInv dev' as := by
  refine ⟨fun a ha => (h.allocated a ha).trans_le hr.next, ?_, h.nodup⟩
  intro p' hp' kp hkp
  obtain ⟨p, hp, hkp'⟩ := hr.keypairs hp' hkp
  exact h.filters p hp kp hkp'

/-- **One event keeps the filters**, whatever it is. -/
theorem FilterInv.lifeStep (h : FilterInv dev as) (hdev : DeviceInv dev) (e : LifeEvent) :
    FilterInv (lifeStep c dev e).dev (as ++ (arrivalOf c dev e).toList) := by
  cases htraffic : e.isTraffic with
  | true => exact h.served hdev (served_lifeStep hdev htraffic)
  | false =>
    rw [(arrivalOf_config htraffic).1, Option.toList_none, List.append_nil]
    exact h.reconfigured (reconfigured_lifeStep htraffic)

theorem FilterInv.lifeRun (h : FilterInv dev as) (hdev : DeviceInv dev) (es : List LifeEvent) :
    FilterInv (lifeRun c dev es) (as ++ arrivals c dev es) := by
  induction es generalizing dev as with
  | nil => rwa [arrivals, List.append_nil]
  | cons e es ih =>
    rw [arrivals, ← List.append_assoc]
    exact ih (h.lifeStep hdev e) (hdev.lifeStep e)

theorem filterInv_deviceInit (c : Crypto) : FilterInv (deviceInit c) [] :=
  ⟨List.forall_mem_nil _, List.forall_mem_nil _, List.nodup_nil⟩

/-! ### What is written -/

/-- What is written for a message: nothing, or the packet that its headers delimit. -/
def Arrival.WritesAtMost (a : Arrival) : Prop :=
  a.tun = [] ∨ ∃ n, transportPlaintextLen a.plaintext = some n ∧ 0 < n ∧ a.tun = [a.plaintext.take n]

theorem writtenPacket_cases (dev : Device) (peer : Peer) (p : List Byte) (n : ℕ) :
    writtenPacket dev peer p n = [] ∨ 0 < n ∧ writtenPacket dev peer p n = [p.take n] := by
  unfold writtenPacket
  split_ifs with h
  · exact Or.inr ⟨h.1, rfl⟩
  · exact Or.inl rfl

/-- Whatever an event writes comes from the message that it brings. -/
theorem tun_lifeStep (hdev : DeviceInv dev) :
    (lifeStep c dev e).tun = (arrivalOf c dev e).toList.flatMap Arrival.tun ∧
      ∀ a ∈ arrivalOf c dev e, a.WritesAtMost := by
  cases htraffic : e.isTraffic with
  | false =>
    obtain ⟨hnone, htun⟩ := @arrivalOf_config c dev e htraffic
    rw [hnone, htun]
    exact ⟨rfl, by rintro a ⟨⟩⟩
  | true =>
    have htun := (@served_lifeStep c dev e hdev htraffic).tun
    unfold arrivalOf
    split
    next env fuel src msg =>
      set tun := (Wgx.lifeStep c dev (.device (.recv env fuel src (.transport msg)))).tun
      cases hacc : acceptedTransport c dev msg with
      | none =>
        rw [writtenBy, hacc] at htun
        exact ⟨htun, by rintro a ⟨⟩⟩
      | some t =>
        rw [writtenBy, hacc] at htun
        refine ⟨by simp, ?_⟩
        rintro a ⟨⟩
        simp only at htun
        cases hlen : transportPlaintextLen t.2.2 with
        | none =>
          rw [hlen] at htun
          exact Or.inl htun
        | some n =>
          rw [hlen, Option.map_some, Option.getD_some] at htun
          rcases writtenPacket_cases dev t.1 t.2.2 n with hnone | ⟨h0, hsome⟩
          · exact Or.inl (htun.trans hnone)
          · exact Or.inr ⟨n, hlen, h0, htun.trans hsome⟩
    next hother =>
      refine ⟨htun.trans ?_, by rintro a ⟨⟩⟩
      unfold writtenBy
      split
      · exact (hother _ _ _ _ rfl).elim
      · rfl

theorem writtenPackets_eq (hdev : DeviceInv dev) (es : List LifeEvent) :
    writtenPackets c dev es = (arrivals c dev es).flatMap Arrival.tun ∧
      ∀ a ∈ arrivals c dev es, a.WritesAtMost := by
  induction es generalizing dev with
  | nil => exact ⟨rfl, List.forall_mem_nil _⟩
  | cons e es ih =>
    obtain ⟨htun, hstep⟩ := @tun_lifeStep c dev e hdev
    obtain ⟨hrest, hrun⟩ := ih (hdev.lifeStep e)
    refine ⟨by rw [writtenPackets, arrivals, List.flatMap_append, htun, hrest], ?_⟩
    intro a ha
    rcases List.mem_append.1 ha with ha | ha
    · exact hstep a (Option.mem_toList.1 ha)
    · exact hrun a ha

end Steps

theorem nodup_arrivals (c : Crypto) (es : List LifeEvent) :
    ((arrivals c (deviceInit c) es).map Arrival.label).Nodup := by
  have hfilters := @FilterInv.lifeRun c _ _ (filterInv_deviceInit c) (deviceInv_deviceInit c) es
  rw [List.nil_append] at hfilters
  exact hfilters.nodup

/-- **No message is delivered twice.**  In every life of a device, whatever datagrams, packets,
timers and SET requests it consists of, no two accepted transport messages have the same keypair and
the same counter, and the packets written to the TUN device are, in order, those of the accepted
messages, each of which writes one packet at most. -/
theorem delivered_once (c : Crypto) (es : List LifeEvent) :
    ((arrivals c (deviceInit c) es).map Arrival.label).Nodup ∧
      writtenPackets c (deviceInit c) es = (arrivals c (deviceInit c) es).flatMap Arrival.tun ∧
      ∀ a ∈ arrivals c (deviceInit c) es, a.WritesAtMost :=
  ⟨nodup_arrivals c es, writtenPackets_eq (deviceInv_deviceInit c) es⟩

/-! ### Both ends of a session -/

section Tunnel

variable (c : Crypto)

/-- The packets that the calls of a run seal, with the keypair that each call finds. -/
def sealedPackets : Ctx → List SendEvent → List (Keypair × List Byte)
  | _, [] => []
  | x, .send env pkt :: es =>
    (x.peer.sender.filter fun kp => Counted kp env pkt ∧ kp.sendNonce < rejectAfterMessages).toList.map
      (·, pkt) ++ sealedPackets (deviceSendToPeer c env x pkt) es
  | _, .other y :: es => sealedPackets y es

/-- The packets that a run hands to `device_send_to_peer`. -/
def handedPackets (es : List SendEvent) : List (List Byte) :=
  es.filterMap fun e => match e with
    | .send _ pkt => some pkt
    | .other _ => none

/-- The transport messages that reach a device. -/
def transportsIn (es : List LifeEvent) : List MsgTransport :=
  es.filterMap fun e => match e with
    | .device (.recv _ _ _ (.transport msg)) => some msg
    | _ => none

/-- No message that reaches the device was forged: what opens under the key was sealed by one of the
encryptions in the log. -/
def Unforged (key : List Byte) (log : List (List Byte × MsgTransport)) (es : List LifeEvent) : Prop :=
  ∀ msg ∈ transportsIn es,
    (c.aeadDecrypt key (transportNonce msg.counter) msg.content []).isSome →
      ∃ e ∈ log, e.2.counter = msg.counter ∧ e.2.content = msg.content

/-- The packets written for the messages that were accepted under the keypair at `addr` with the
key. -/
def writtenUnder (addr : ℕ) (key : List Byte) (dev : Device) (es : List LifeEvent) :
    List (List Byte) :=
  ((arrivals c dev es).filter fun a => a.keypair = addr ∧ a.key = key).flatMap Arrival.tun

variable {c} {x : Ctx} {kp : Keypair}

/-- The log of a run is the list of its sealed packets. -/
theorem sendLog_eq (x : Ctx) (ses : List SendEvent) : sendLog c x ses =
    (sealedPackets c x ses).map fun t => (t.1.sendKey, t.1.seal c t.2) := by
  induction ses generalizing x with
  | nil => rfl
  | cons e ses ih =>
    cases e with
    | other y => exact ih y
    | send env pkt =>
      rw [sendLog, sealedPackets, List.map_append, ih]
      congr 1
      unfold sendEncryption
      cases x.peer.sender with
      | none => rfl
      | some kp =>
        simp only [Option.filter_some, decide_eq_true_eq]
        split_ifs <;> rfl

/-- What a run seals was handed over, fits the MTU and is sealed with the key of the keypair. -/
theorem sealedPackets_spec {ses : List SendEvent} (hkp : x.peer.sender = some kp)
    (hses : Machine.Guarded (SendEvent.step c) SendEvent.KeepsSender x ses) :
    ((sealedPackets c x ses).map Prod.snd).Sublist (handedPackets ses) ∧
      ∀ t ∈ sealedPackets c x ses, t.1.sendKey = kp.sendKey ∧ t.2.length ≤ wgDefaultMtu := by
  induction ses generalizing x kp with
  | nil => exact ⟨List.Sublist.refl _, List.forall_mem_nil _⟩
  | cons e ses ih =>
    obtain ⟨hok, hses⟩ := hses
    cases e with
    | other y => exact ih (hok.trans hkp) hses
    | send env pkt =>
      have hnext : (deviceSendToPeer c env x pkt).peer.sender = _ := sender_deviceSendToPeer hkp
      have hkey : (if Counted kp env pkt then { kp with sendNonce := kp.sendNonce + 1 }
          else kp).sendKey = kp.sendKey := by
        split_ifs <;> rfl
      obtain ⟨hsub, hall⟩ := ih hnext hses
      rw [hkey] at hall
      rw [sealedPackets, hkp, Option.filter_some, List.map_append]
      simp only [decide_eq_true_eq]
      split_ifs with hseal
      · refine ⟨hsub.cons_cons pkt, ?_⟩
        intro t ht
        rcases List.mem_cons.1 ht with rfl | ht
        · exact ⟨rfl, hseal.1.1⟩
        · exact hall t ht
      · exact ⟨hsub.cons pkt, hall⟩

/-- A message that arrived is one of those that reached the device, opened under its key. -/
theorem mem_arrivals {dev : Device} {es : List LifeEvent} {a : Arrival}
    (ha : a ∈ arrivals c dev es) : ∃ msg ∈ transportsIn es, msg.counter = a.counter ∧
      c.aeadDecrypt a.key (transportNonce a.counter) msg.content [] = some a.plaintext := by
  induction es generalizing dev with
  | nil => cases ha
  | cons e es ih =>
    rcases List.mem_append.1 ha with ha | ha
    · obtain ⟨_, _, _, _, _, _, _, env, fuel, src, msg, rfl, hcounter, hopen⟩ :=
        arrival_cases (Option.mem_toList.1 ha)
      exact ⟨msg, List.mem_cons_self, hcounter, hopen⟩
    · obtain ⟨msg, hmsg, hrest⟩ := ih ha
      refine ⟨msg, ?_, hrest⟩
      rw [transportsIn, List.filterMap_cons]
      split
      · exact hmsg
      · exact List.mem_cons_of_mem _ hmsg

theorem subperm_map {α β : Type*} (f : α → β) {xs ys : List α} (h : xs.Subperm ys) :
    (xs.map f).Subperm (ys.map f) := by
  obtain ⟨zs, hperm, hsub⟩ := h
  exact ⟨zs.map f, hperm.map f, hsub.map f⟩

/-- The packet in a plaintext. -/
def payload (plaintext : List Byte) : List Byte :=
  plaintext.take ((transportPlaintextLen plaintext).getD 0)

theorem payload_padded {pkt : List Byte} (hmtu : pkt.length ≤ wgDefaultMtu)
    (hpkt : pkt = [] ∨ IsIpv4Packet pkt ∨ IsIpv6Packet pkt) : payload (padded pkt) = pkt := by
  rw [payload, transportPlaintextLen_padded hmtu hpkt, Option.getD_some, take_padded]

theorem tun_sublist_payloads {as : List Arrival} (h : ∀ a ∈ as, a.WritesAtMost) :
    (as.flatMap Arrival.tun).Sublist (as.map fun a => payload a.plaintext) := by
  induction as with
  | nil => exact List.Sublist.refl _
  | cons a as ih =>
    have hrest := ih fun b hb => h b (List.mem_cons_of_mem _ hb)
    rw [List.flatMap_cons, List.map_cons]
    rcases h a List.mem_cons_self with hnone | ⟨n, hn, -, hsome⟩
    · rw [hnone, List.nil_append]
      exact hrest.cons _
    · rw [hsome, payload, hn]
      exact hrest.cons_cons _

/-- **A tunnel delivers what was handed to it, each packet at most once.**  At one end let a keypair
be the one that sends, and consider any calls of `device_send_to_peer`, of IP packets and keepalives,
whatever happens in between.  At the other end consider any life of the device, in which any of the
messages arrive, any number of times and in any order, together with any other events; only that
what opens under the key was sealed with it.  Then the packets written for one keypair with that key
are, counted with their multiplicity, among the packets that were handed over. -/
theorem tunnel_integrity (haead : c.AeadRoundTrip) (ses : List SendEvent) (es : List LifeEvent)
    (hkp : x.peer.sender = some kp)
    (hses : Machine.Guarded (SendEvent.step c) SendEvent.KeepsSender x ses)
    (hpkts : ∀ pkt ∈ handedPackets ses, pkt = [] ∨ IsIpv4Packet pkt ∨ IsIpv6Packet pkt)
    (hunforged : Unforged c kp.sendKey (sendLog c x ses) es) (addr : ℕ) :
    (writtenUnder c addr kp.sendKey (deviceInit c) es).Subperm (handedPackets ses) := by
  obtain ⟨hsub, hsealed⟩ := sealedPackets_spec hkp hses
  have hnodup := nodup_arrivals c es
  obtain ⟨-, hwrites⟩ := writtenPackets_eq (deviceInv_deviceInit c) es
  set as := (arrivals c (deviceInit c) es).filter fun a => a.keypair = addr ∧ a.key = kp.sendKey
  have hmem : ∀ a ∈ as, a ∈ arrivals c (deviceInit c) es ∧ a.keypair = addr ∧ a.key = kp.sendKey :=
    fun a ha => by simpa [as] using ha
  -- an arrival is known by its counter, and each is one of the sealed packets
  have hcounters : (as.map fun a => (a.counter, a.plaintext)).Nodup := by
    have hlabels : (as.map Arrival.label).Nodup := hnodup.sublist (List.filter_sublist.map _)
    refine List.Nodup.of_map Prod.fst ?_
    rw [List.map_map]
    refine List.Nodup.of_map (fun n => (addr, n)) ?_
    rw [List.map_map]
    refine (congrArg List.Nodup (List.map_congr_left fun a ha => ?_)).mp hlabels
    exact Prod.ext (hmem a ha).2.1 rfl
  have hfrom : (as.map fun a => (a.counter, a.plaintext)) ⊆
      (sealedPackets c x ses).map fun t => (t.1.sendNonce, padded t.2) := by
    intro m hm
    obtain ⟨a, ha, rfl⟩ := List.mem_map.1 hm
    obtain ⟨hin, -, hkey⟩ := hmem a ha
    obtain ⟨msg, hmsg, hcounter, hopen⟩ := mem_arrivals hin
    rw [hkey, ← hcounter] at hopen
    obtain ⟨e, he, hecounter, hecontent⟩ := hunforged msg hmsg (Option.isSome_of_eq_some hopen)
    rw [sendLog_eq] at he
    obtain ⟨t, ht, rfl⟩ := List.mem_map.1 he
    have hplain : c.aeadDecrypt kp.sendKey (transportNonce t.1.sendNonce)
        (c.aeadEncrypt t.1.sendKey (transportNonce t.1.sendNonce) (padded t.2) []) [] =
          some a.plaintext := by
      rw [← hopen, ← hecounter, ← hecontent]
      rfl
    rw [(hsealed t ht).1, haead] at hplain
    exact List.mem_map.2 ⟨t, ht, Prod.ext (hecounter.trans hcounter) (Option.some.inj hplain)⟩
  have hpayloads := subperm_map (fun m => payload m.2) (hcounters.subperm hfrom)
  rw [List.map_map, List.map_map] at hpayloads
  have hpackets : (sealedPackets c x ses).map ((fun m => payload m.2) ∘ fun t =>
      (t.1.sendNonce, padded t.2)) = (sealedPackets c x ses).map Prod.snd := by
    refine List.map_congr_left fun t ht => payload_padded (hsealed t ht).2 (hpkts t.2 ?_)
    exact hsub.subset (List.mem_map_of_mem ht)
  rw [hpackets] at hpayloads
  have htun := tun_sublist_payloads fun a ha => hwrites a (hmem a ha).1
  exact htun.subperm.trans (hpayloads.trans hsub.subperm)

end Tunnel

/-- The other end of the session that `twoInitiations` begins. -/
def tunnelKeypair : Keypair where
  addr := 9
  sendNonce := 0
  sendKey := List.replicate 32 193
  recvKey := List.replicate 32 1
  replay := Replay.replayReset
  isInitiator := true
  createdAtMs := 1000
  localIndex := 3
  remoteIndex := 7

/-- The device at that end. -/
def tunnelSender : Ctx :=
  Ctx.start (toyDevice (List.replicate 32 2) (List.replicate 32 1))
    { toyPeer (List.replicate 32 2) (List.replicate 32 1) with currentKeypair := some tunnelKeypair }

/-- A packet and a keepalive are handed over. -/
def tunnelCalls : List SendEvent := [.send (toyEnv 5) overlapPacket, .send (toyEnv 5) []]

/-- A session begins, the AllowedIPs are set, and the messages arrive twice each. -/
def tunnelLife : List LifeEvent :=
  let msgs := (sendLog tagCrypto tunnelSender tunnelCalls).map Prod.snd
  twoInitiations.take 3 ++
    [.set (toyEnv 5) []
      (ascii "public_key=0202020202020202020202020202020202020202020202020202020202020202\n" ++
        ascii "allowed_ip=10.1.0.0/16\n")] ++
    (msgs ++ msgs).map fun msg => .device (.recv (toyEnv 5) 0 tagSrc (.transport msg))

instance (c : Crypto) (key : List Byte) (log : List (List Byte × MsgTransport))
    (es : List LifeEvent) : Decidable (Unforged c key log es) :=
  inferInstanceAs (Decidable (∀ msg ∈ transportsIn es, _ → ∃ e ∈ log, _))

theorem tunnel_integrity_twice :
    writtenUnder tagCrypto 2 tunnelKeypair.sendKey (deviceInit tagCrypto) tunnelLife =
        [overlapPacket] ∧
      (writtenUnder tagCrypto 2 tunnelKeypair.sendKey (deviceInit tagCrypto) tunnelLife).Subperm
        (handedPackets tunnelCalls) := by
  refine ⟨by decide +kernel, @tunnel_integrity tagCrypto tunnelSender tunnelKeypair tagCrypto_aead
    tunnelCalls tunnelLife rfl ⟨trivial, trivial, trivial⟩ ?_ (by decide +kernel) 2⟩
  intro pkt hpkt
  rcases List.mem_cons.1 hpkt with rfl | hpkt
  · exact Or.inr (Or.inl ⟨by decide, by decide, by decide, by decide⟩)
  · exact Or.inl (List.mem_singleton.1 hpkt)

end Wgx
