import Wgx.Lib.Run
import Wgx.Noise.Agreement

/-!
# MACs and cookies between two machines (`noise.c`)

An initiator completes its handshake messages with a cookie generator, and the responder checks them
with a cookie checker.  Each machine has its own clock, and nothing but messages goes between them.

* `genCall`, `checkerCall`: what either machine does with its part;
* `checker_kept`: the secret of the checker is the same until it is 120 seconds old;
* `cookie_kept`: the generator keeps the cookie that it has;
* `macs_match`: what the generator adds, the checker accepts.
-/

namespace Wgx

/-- Decryption undoes encryption, for the cipher of the cookie replies. -/
def Crypto.XaeadRoundTrip (c : Crypto) : Prop :=
  ∀ key nonce plaintext aad,
    c.xaeadDecrypt key nonce (c.xaeadEncrypt key nonce plaintext aad) aad = some plaintext

/-! ### What the two machines do -/

/-- A call with the cookie generator. -/
inductive GenCall
  | addMacs (body : List Byte) (now : BitVec 64)
  | consumeReply (reply : MsgCookieReply) (now : BitVec 64)

/-- The time of a call. -/
def GenCall.now : GenCall → BitVec 64
  | .addMacs _ now => now
  | .consumeReply _ now => now

/-- A call with the cookie checker. -/
inductive CheckerCall
  | validateMacs (src : Endpoint) (body mac1 mac2 random : List Byte) (now : BitVec 64)
      (underLoad : Bool)
  | createReply (src : Endpoint) (lastMac1 : List Byte) (receiver : BitVec 32)
      (nonce random : List Byte) (now : BitVec 64)

/-- The time of a call. -/
def CheckerCall.now : CheckerCall → BitVec 64
  | .validateMacs _ _ _ _ _ now _ => now
  | .createReply _ _ _ _ _ now => now

section Calls

variable (c : Crypto)

/-- The generator after a call. -/
def genCall (cg : CookieGen) : GenCall → CookieGen
  | .addMacs body now => (cookieAddMacs c cg body now).1
  | .consumeReply reply now => cookieConsumeReply c cg reply now

/-- The checker after a call. -/
def checkerCall (cc : CookieChecker) : CheckerCall → CookieChecker
  | .validateMacs src body mac1 mac2 random now underLoad =>
    (cookieValidateMacs c cc src body mac1 mac2 random now underLoad).1
  | .createReply src lastMac1 receiver nonce random now =>
    (cookieCreateReply c cc src lastMac1 receiver nonce random now).1

/-- The generator for the responder with the public key `pub`, after some calls. -/
def genAfter (pub : List Byte) (calls : List GenCall) : CookieGen :=
  Machine.run (genCall c) (cookieGenInit c pub) calls

/-- The checker of the responder with the public key `pub`, after some calls. -/
def checkerAfter (pub : List Byte) (calls : List CheckerCall) : CookieChecker :=
  Machine.run (checkerCall c) (cookieCheckerInit c pub) calls

/-- A reply that the generator consumes carries no other cookie than it has: it does not open, or it
is another answer with the same cookie. -/
def SameCookie (cg : CookieGen) : GenCall → Prop
  | .addMacs _ _ => True
  | .consumeReply reply _ => ∀ mac1 cookie, cg.lastMac1 = some mac1 →
      c.xaeadDecrypt cg.mac2Key reply.nonce reply.cookieEnc mac1 = some cookie → cookie = cg.cookie

end Calls

variable {c : Crypto} {pub : List Byte} {cg : CookieGen} {cc : CookieChecker}

/-! ### The keys -/

/-- The keys of a generator for the responder with the public key `pub`. -/
structure CookieGen.KeysOf (c : Crypto) (pub : List Byte) (cg : CookieGen) : Prop where
  mac1Key : cg.mac1Key = (cookieCheckerInit c pub).mac1Key
  mac2Key : cg.mac2Key = (cookieCheckerInit c pub).mac2EncryptKey

/-- The keys of the checker of that responder. -/
structure CookieChecker.KeysOf (c : Crypto) (pub : List Byte) (cc : CookieChecker) : Prop where
  mac1Key : cc.mac1Key = (cookieCheckerInit c pub).mac1Key
  mac2EncryptKey : cc.mac2EncryptKey = (cookieCheckerInit c pub).mac2EncryptKey

/-- A new reply changes the cookie and its time. -/
theorem cookieConsumeReply_eq (reply : MsgCookieReply) (now : BitVec 64) :
    cookieConsumeReply c cg reply now = cg ∨ ∃ mac1 cookie, cg.lastMac1 = some mac1 ∧
      c.xaeadDecrypt cg.mac2Key reply.nonce reply.cookieEnc mac1 = some cookie ∧
      cookieConsumeReply c cg reply now = { cg with cookie := cookie, cookieSetMs := now } := by
  unfold cookieConsumeReply
  cases hmac : cg.lastMac1 with
  | none => exact Or.inl rfl
  | some mac1 =>
    cases hopen : c.xaeadDecrypt cg.mac2Key reply.nonce reply.cookieEnc mac1 with
    | none => left; simp only [hopen]
    | some cookie => right; exact ⟨mac1, cookie, rfl, hopen, by simp only [hopen]⟩

theorem genKeys_genCall (h : cg.KeysOf c pub) (call : GenCall) : (genCall c cg call).KeysOf c pub := by
  cases call with
  | addMacs body now => exact ⟨h.mac1Key, h.mac2Key⟩
  | consumeReply reply now =>
    rw [genCall]
    rcases @cookieConsumeReply_eq c cg reply now with heq | ⟨mac1, cookie, -, -, heq⟩
    · rwa [heq]
    · rw [heq]
      exact ⟨h.mac1Key, h.mac2Key⟩

theorem genKeys_run (h : cg.KeysOf c pub) (calls : List GenCall) :
    (Machine.run (genCall c) cg calls).KeysOf c pub :=
  @Machine.run_induction' _ _ (genCall c) (fun cg => cg.KeysOf c pub)
    (fun _ call h => genKeys_genCall h call) cg h calls

/-- A call with the checker refreshes its secret or leaves it as it is. -/
theorem checkerCall_eq (call : CheckerCall) :
    checkerCall c cc call = cc ∨
      ∃ random, checkerCall c cc call = cookieRefreshSecret cc random call.now := by
  cases call with
  | validateMacs src body mac1 mac2 random now underLoad =>
    simp only [checkerCall, cookieValidateMacs]
    split_ifs with hmac1 hload hmac2
    · exact Or.inl rfl
    · exact Or.inl rfl
    · exact Or.inr ⟨random, rfl⟩
    · exact Or.inr ⟨random, rfl⟩
  | createReply src lastMac1 receiver nonce random now => exact Or.inr ⟨random, rfl⟩

theorem checkerKeys_checkerCall (h : cc.KeysOf c pub) (call : CheckerCall) :
    (checkerCall c cc call).KeysOf c pub := by
  rcases @checkerCall_eq c cc call with heq | ⟨random, heq⟩
  · rwa [heq]
  · rw [heq, cookieRefreshSecret]
    split_ifs
    · exact ⟨h.mac1Key, h.mac2EncryptKey⟩
    · exact h

theorem checkerKeys_checkerAfter (calls : List CheckerCall) :
    (checkerAfter c pub calls).KeysOf c pub :=
  @Machine.run_induction' _ _ (checkerCall c) (fun cc => cc.KeysOf c pub)
    (fun _ call h => checkerKeys_checkerCall h call) (cookieCheckerInit c pub) ⟨rfl, rfl⟩ calls

/-! ### The secret of the checker -/

/-- A time in the 120 seconds from `start`. -/
def FreshSince (start now : BitVec 64) : Prop := start ≤ now ∧ now.toNat < start.toNat + 120000

theorem fresh_lt {start now : BitVec 64} (h : FreshSince start now) :
    now - start < cookieRefreshTimeMs := by
  obtain ⟨hle, hlt⟩ := h
  rw [BitVec.lt_def, BitVec.toNat_sub_of_le hle]
  show now.toNat - start.toNat < 120000
  rw [BitVec.le_def] at hle
  omega

theorem cookieRefreshSecret_fresh {now : BitVec 64} (hset : cc.mac2SecretSetMs ≠ 0)
    (h : FreshSince cc.mac2SecretSetMs now) (random : List Byte) :
    cookieRefreshSecret cc random now = cc := by
  rw [cookieRefreshSecret, if_neg]
  rintro (h0 | hold)
  · exact hset h0
  · exact absurd (fresh_lt h) (BitVec.not_lt.2 hold)

/-- While the secret is fresh, the checker does not change. -/
theorem checker_kept {calls : List CheckerCall} (hset : cc.mac2SecretSetMs ≠ 0)
    (h : ∀ call ∈ calls, FreshSince cc.mac2SecretSetMs call.now) :
    Machine.run (checkerCall c) cc calls = cc := by
  induction calls with
  | nil => rfl
  | cons call calls ih =>
    obtain ⟨hcall, hcalls⟩ := List.forall_mem_cons.1 h
    have hkept : checkerCall c cc call = cc := by
      rcases @checkerCall_eq c cc call with heq | ⟨random, heq⟩
      · exact heq
      · rw [heq, cookieRefreshSecret_fresh hset hcall]
    rw [Machine.run_cons, hkept]
    exact ih hcalls

/-- The secret is not set later than the calls were. -/
theorem secretSet_le {calls : List CheckerCall} {t : BitVec 64} (h : ∀ call ∈ calls, call.now ≤ t) :
    (checkerAfter c pub calls).mac2SecretSetMs ≤ t := by
  refine @Machine.run_induction _ _ (checkerCall c) (fun _ call => call.now ≤ t)
    (fun cc => cc.mac2SecretSetMs ≤ t) ?_ (cookieCheckerInit c pub) ?_ calls
    (Machine.guarded_of_forall (checkerCall c) h _)
  · intro cc call hcc hcall
    rcases @checkerCall_eq c cc call with heq | ⟨random, heq⟩
    · rwa [heq]
    · rw [heq, cookieRefreshSecret]
      split_ifs
      · exact hcall
      · exact hcc
  · show 0#64 ≤ t
    rw [BitVec.le_def]
    exact Nat.zero_le _

/-! ### The cookie of the generator -/

/-- A generator that gets no other cookie keeps the one that it has. -/
theorem cookie_kept {start t : BitVec 64} {calls : List GenCall} (hstart : start ≤ cg.cookieSetMs)
    (hend : cg.cookieSetMs ≤ t) (hsame : Machine.Guarded (genCall c) (SameCookie c) cg calls)
    (h : ∀ call ∈ calls, start ≤ call.now ∧ call.now ≤ t) :
    (Machine.run (genCall c) cg calls).cookie = cg.cookie ∧
      start ≤ (Machine.run (genCall c) cg calls).cookieSetMs ∧
      (Machine.run (genCall c) cg calls).cookieSetMs ≤ t := by
  induction calls generalizing cg with
  | nil => exact ⟨rfl, hstart, hend⟩
  | cons call calls ih =>
    obtain ⟨hcall, hcalls⟩ := List.forall_mem_cons.1 h
    obtain ⟨hsame, hrest⟩ := hsame
    rw [Machine.run_cons]
    cases call with
    | addMacs body now => exact ih hstart hend hrest hcalls
    | consumeReply reply now =>
      rw [genCall] at hrest ⊢
      rcases @cookieConsumeReply_eq c cg reply now with heq | ⟨mac1, cookie, hmac1, hopen, heq⟩
      · rw [heq] at hrest ⊢
        exact ih hstart hend hrest hcalls
      · rw [heq, hsame mac1 cookie hmac1 hopen] at hrest ⊢
        exact ih hcall.1 hcall.2 hrest hcalls

/-- Another answer of the responder carries the same cookie, if its secret is the same. -/
theorem sameCookie_createReply (hx : c.XaeadRoundTrip) {src : Endpoint} {mac1 : List Byte}
    (hkey : cg.mac2Key = cc.mac2EncryptKey) (hmac1 : cg.lastMac1 = some mac1)
    (hcookie : cg.cookie = computeCookie c cc src) (receiver : BitVec 32) (nonce random : List Byte)
    {now : BitVec 64} (hset : cc.mac2SecretSetMs ≠ 0) (hfresh : FreshSince cc.mac2SecretSetMs now)
    (t : BitVec 64) :
    SameCookie c cg
      (.consumeReply (cookieCreateReply c cc src mac1 receiver nonce random now).2 t) := by
  intro mac1' cookie hmac1' hopen
  obtain rfl : mac1 = mac1' := Option.some.inj (hmac1.symm.trans hmac1')
  rw [cookieCreateReply, cookieRefreshSecret_fresh hset hfresh, hkey, hx] at hopen
  rw [hcookie]
  exact (Option.some.inj hopen).symm

/-! ### The two together -/

/-- The checker accepts the first MAC of a generator with its keys. -/
theorem mac1_match (hcg : cg.KeysOf c pub) (hcc : cc.KeysOf c pub) (src : Endpoint)
    (body mac2 random : List Byte) (t t' : BitVec 64) (underLoad : Bool) :
    (cookieValidateMacs c cc src body (cookieAddMacs c cg body t).2.1 mac2 random t'
      underLoad).2 ≠ .invalid := by
  have hmac1 : wgBlake2s128Mac c cc.mac1Key body = (cookieAddMacs c cg body t).2.1 := by
    show _ = wgBlake2s128Mac c cg.mac1Key body
    rw [hcg.mac1Key, hcc.mac1Key]
  rw [cookieValidateMacs, if_neg (not_not.2 hmac1)]
  cases underLoad with
  | false => nofun
  | true =>
    simp only [Bool.not_true, Bool.false_eq_true, if_false]
    split_ifs
    · nofun
    · nofun

/-- A generator with the cookie of a checker passes both checks. -/
theorem mac2_match (hcg : cg.KeysOf c pub) (hcc : cc.KeysOf c pub) {src : Endpoint}
    (hcookie : cg.cookie = computeCookie c cc src) {t t' : BitVec 64} (hcookieSet : cg.cookieSetMs ≠ 0)
    (ht : FreshSince cg.cookieSetMs t) (hset : cc.mac2SecretSetMs ≠ 0)
    (ht' : FreshSince cc.mac2SecretSetMs t') (body random : List Byte) (underLoad : Bool) :
    (cookieValidateMacs c cc src body (cookieAddMacs c cg body t).2.1
      (cookieAddMacs c cg body t).2.2 random t' underLoad).2 = .valid := by
  have hmac1 : wgBlake2s128Mac c cc.mac1Key body = (cookieAddMacs c cg body t).2.1 := by
    show _ = wgBlake2s128Mac c cg.mac1Key body
    rw [hcg.mac1Key, hcc.mac1Key]
  have hmac2 : wgBlake2s128Mac c (computeCookie c cc src)
      (body ++ (cookieAddMacs c cg body t).2.1) = (cookieAddMacs c cg body t).2.2 := by
    have hvalid : cg.cookieSetMs ≠ 0 ∧ t - cg.cookieSetMs < cookieRefreshTimeMs :=
      ⟨hcookieSet, fresh_lt ht⟩
    simp only [cookieAddMacs, if_pos hvalid, hcookie]
  rw [cookieValidateMacs, if_neg (not_not.2 hmac1), cookieRefreshSecret_fresh hset ht']
  cases underLoad with
  | false => rfl
  | true => simp only [Bool.not_true, Bool.false_eq_true, if_false, if_neg (not_not.2 hmac2)]

/-- **What the generator adds, the checker accepts**: always under the first MAC, and under the second
one from the cookie reply on, until the cookie or the secret is 120 seconds old. -/
theorem macs_match (hx : c.XaeadRoundTrip) (pub : List Byte) (gs : List GenCall)
    (cs : List CheckerCall) :
    (∀ src body mac2 random t t' underLoad,
      (cookieValidateMacs c (checkerAfter c pub cs) src body
        (cookieAddMacs c (genAfter c pub gs) body t).2.1 mac2 random t' underLoad).2 ≠ .invalid) ∧
    ∀ src mac1 receiver nonce random now t₁ T cc reply gs' cs' t t',
      (genAfter c pub gs).lastMac1 = some mac1 →
      cookieCreateReply c (checkerAfter c pub cs) src mac1 receiver nonce random now = (cc, reply) →
      cc.mac2SecretSetMs = T → T ≠ 0 → t₁ ≠ 0 →
      Machine.Guarded (genCall c) (SameCookie c)
        (cookieConsumeReply c (genAfter c pub gs) reply t₁) gs' →
      (t₁ :: (gs'.map GenCall.now ++ [t])).Pairwise (· ≤ ·) → t.toNat < t₁.toNat + 120000 →
      (cs.map CheckerCall.now ++ now :: (cs'.map CheckerCall.now ++ [t'])).Pairwise (· ≤ ·) →
      t'.toNat < T.toNat + 120000 →
      ∀ body random' underLoad,
        (cookieValidateMacs c (Machine.run (checkerCall c) cc cs') src body
          (cookieAddMacs c (Machine.run (genCall c)
            (cookieConsumeReply c (genAfter c pub gs) reply t₁) gs') body t).2.1
          (cookieAddMacs c (Machine.run (genCall c)
            (cookieConsumeReply c (genAfter c pub gs) reply t₁) gs') body t).2.2
          random' t' underLoad).2 = .valid := by
  have hcg : (genAfter c pub gs).KeysOf c pub := genKeys_run ⟨rfl, rfl⟩ gs
  have hcc : (checkerAfter c pub cs).KeysOf c pub := checkerKeys_checkerAfter cs
  refine ⟨fun src body mac2 random t t' underLoad =>
    mac1_match hcg hcc src body mac2 random t t' underLoad, ?_⟩
  rintro src mac1 receiver nonce random now t₁ T cc reply gs' cs' t t' hmac1 hreply rfl hT ht₁ hsame
    hgen ht hchk ht' body random' underLoad
  -- the answer, and the cookie in it
  have hccDef : checkerCall c (checkerAfter c pub cs)
      (.createReply src mac1 receiver nonce random now) = cc := by
    rw [checkerCall, hreply]
  have hcc' : cc.KeysOf c pub := hccDef ▸ checkerKeys_checkerCall hcc _
  have hconsume : cookieConsumeReply c (genAfter c pub gs) reply t₁ =
      { genAfter c pub gs with cookie := computeCookie c cc src, cookieSetMs := t₁ } := by
    obtain ⟨rfl, rfl⟩ := Prod.ext_iff.1 hreply
    simp only [cookieConsumeReply, hmac1]
    rw [hcg.mac2Key, ← hcc'.mac2EncryptKey]
    simp only [cookieCreateReply, hx _ _ _ _]
  rw [hconsume] at hsame ⊢
  -- the clocks
  rw [List.pairwise_cons, List.pairwise_append] at hgen
  obtain ⟨hafter, -, -, hbefore⟩ := hgen
  rw [List.pairwise_append, List.pairwise_cons, List.pairwise_append] at hchk
  obtain ⟨-, ⟨hlater, -, -, hearlier⟩, hbeforeNow⟩ := hchk
  have hsetNow : cc.mac2SecretSetMs ≤ now := by
    have hle : (checkerAfter c pub cs).mac2SecretSetMs ≤ now := secretSet_le fun call hcall =>
      hbeforeNow _ (List.mem_map_of_mem hcall) _ (.head _)
    rw [← hccDef]
    show (cookieRefreshSecret _ random now).mac2SecretSetMs ≤ now
    rw [cookieRefreshSecret]
    split_ifs
    · exact BitVec.le_refl now
    · exact hle
  have hfresh : ∀ n, now ≤ n → n ≤ t' → FreshSince cc.mac2SecretSetMs n := fun n hn hn' =>
    ⟨BitVec.le_trans hsetNow hn, lt_of_le_of_lt (BitVec.le_def.1 hn') ht'⟩
  have hend : t' ∈ cs'.map CheckerCall.now ++ [t'] := List.mem_append_right _ (.head _)
  rw [checker_kept hT fun call hcall => hfresh _
    (hlater _ (List.mem_append_left _ (List.mem_map_of_mem hcall)))
    (hearlier _ (List.mem_map_of_mem hcall) t' (.head _))]
  have hstart : t₁ ≤ t := hafter t (List.mem_append_right _ (.head _))
  obtain ⟨hcookie, hset, hset'⟩ := cookie_kept (show t₁ ≤ t₁ from BitVec.le_refl t₁) hstart hsame
    fun call hcall => ⟨hafter _ (List.mem_append_left _ (List.mem_map_of_mem hcall)),
      hbefore _ (List.mem_map_of_mem hcall) t (.head _)⟩
  have hcg' : CookieGen.KeysOf c pub { genAfter c pub gs with
      cookie := computeCookie c cc src, cookieSetMs := t₁ } := ⟨hcg.mac1Key, hcg.mac2Key⟩
  refine mac2_match (genKeys_run hcg' gs') hcc' hcookie ?_ ⟨hset', ?_⟩ hT
    (hfresh t' (hlater t' hend) (BitVec.le_refl _)) body random' underLoad
  · intro h0
    rw [h0, BitVec.le_def] at hset
    exact ht₁ (BitVec.eq_of_toNat_eq (Nat.le_zero.1 hset))
  · rw [BitVec.le_def] at hset
    omega

theorem toyCrypto_xaead : toyCrypto.XaeadRoundTrip := by
  intro key nonce plaintext aad
  exact if_pos rfl

/-- The source of the messages to the toy responder. -/
def toySource : Endpoint := .v4 ⟨#[10, 0, 0, 1], rfl⟩ 9

/-- The answer of the toy responder to the message `[1]`, at the time 7. -/
def toyReply : CookieChecker × MsgCookieReply :=
  cookieCreateReply toyCrypto (checkerAfter toyCrypto zeroKey []) toySource
    (cookieAddMacs toyCrypto (cookieGenInit toyCrypto zeroKey) [1] 5).2.1 1 [4] [3] 7

/-- The generator of the initiator that has consumed it, at the time 9. -/
def toyGen : CookieGen :=
  cookieConsumeReply toyCrypto (genAfter toyCrypto zeroKey [.addMacs [1] 5]) toyReply.2 9

/-- What the toy responder answers to the message `[2]` of that generator when it comes from `src`. -/
def secondReply (src : Endpoint) : CookieChecker × MsgCookieReply :=
  cookieCreateReply toyCrypto toyReply.1 src (cookieAddMacs toyCrypto toyGen [2] 10).2.1 1 [5] [3] 8

/-- The generator completes `[2]` and consumes that answer. -/
def secondRound (src : Endpoint) : List GenCall :=
  [.addMacs [2] 10, .consumeReply (secondReply src).2 11]

/-- The toy responder wants a cookie from the third message, and takes it with the cookie; another
answer to the same source changes nothing. -/
theorem macs_match_toy :
    (cookieValidateMacs toyCrypto toyReply.1 toySource [3]
      (cookieAddMacs toyCrypto (cookieGenInit toyCrypto zeroKey) [3] 12).2.1
      (cookieAddMacs toyCrypto (cookieGenInit toyCrypto zeroKey) [3] 12).2.2 [] 9 true).2 =
        .needCookie ∧
    (cookieValidateMacs toyCrypto toyReply.1 toySource [3] (cookieAddMacs toyCrypto
        (Machine.run (genCall toyCrypto) toyGen (secondRound toySource)) [3] 12).2.1
      (cookieAddMacs toyCrypto
        (Machine.run (genCall toyCrypto) toyGen (secondRound toySource)) [3] 12).2.2 [] 9 true).2 =
        .valid := by
  refine ⟨by decide +kernel, ?_⟩
  have hset : toyReply.1.mac2SecretSetMs = 7 := by decide +kernel
  have hmac1 : (genAfter toyCrypto zeroKey [.addMacs [1] 5]).lastMac1 =
      some (cookieAddMacs toyCrypto (cookieGenInit toyCrypto zeroKey) [1] 5).2.1 := rfl
  have hsame : Machine.Guarded (genCall toyCrypto) (SameCookie toyCrypto) toyGen
      (secondRound toySource) := by
    refine ⟨trivial, ?_, trivial⟩
    refine sameCookie_createReply toyCrypto_xaead (by decide +kernel) rfl (by decide +kernel) 1 [5] [3]
      (by rw [hset]; decide) ?_ 11
    rw [hset]
    exact ⟨by decide, by decide⟩
  exact (macs_match toyCrypto_xaead zeroKey [.addMacs [1] 5] []).2 toySource _ 1 [4] [3] 7 9
    7 toyReply.1 toyReply.2 (secondRound toySource) [] 12 9 hmac1 rfl hset (by decide) (by decide)
    hsame (by decide) (by decide) (by decide) (by decide) [3] [] true

/-- An answer to another source brings another cookie, with which the first source is refused. -/
theorem macs_match_other_source : toyCrypto.XaeadRoundTrip ∧
    ¬ ∀ src mac1 receiver nonce random now t₁ T cc reply gs' cs' t t',
      (genAfter toyCrypto zeroKey [.addMacs [1] 5]).lastMac1 = some mac1 →
      cookieCreateReply toyCrypto (checkerAfter toyCrypto zeroKey []) src mac1 receiver nonce random
        now = (cc, reply) →
      cc.mac2SecretSetMs = T → T ≠ 0 → t₁ ≠ 0 →
      (t₁ :: (gs'.map GenCall.now ++ [t])).Pairwise (· ≤ ·) → t.toNat < t₁.toNat + 120000 →
      (now :: (cs'.map CheckerCall.now ++ [t'])).Pairwise (· ≤ ·) →
      t'.toNat < T.toNat + 120000 →
      ∀ body random' underLoad,
        (cookieValidateMacs toyCrypto (Machine.run (checkerCall toyCrypto) cc cs') src body
          (cookieAddMacs toyCrypto (Machine.run (genCall toyCrypto) (cookieConsumeReply toyCrypto
            (genAfter toyCrypto zeroKey [.addMacs [1] 5]) reply t₁) gs') body t).2.1
          (cookieAddMacs toyCrypto (Machine.run (genCall toyCrypto) (cookieConsumeReply toyCrypto
            (genAfter toyCrypto zeroKey [.addMacs [1] 5]) reply t₁) gs') body t).2.2
          random' t' underLoad).2 = .valid := by
  refine ⟨toyCrypto_xaead, fun hall => ?_⟩
  have hset : toyReply.1.mac2SecretSetMs = 7 := by decide +kernel
  have hvalid := hall toySource _ 1 [4] [3] 7 9 7 toyReply.1 toyReply.2
    (secondRound (.v4 ⟨#[10, 0, 0, 2], rfl⟩ 9))
    [.createReply (.v4 ⟨#[10, 0, 0, 2], rfl⟩ 9) (cookieAddMacs toyCrypto toyGen [2] 10).2.1 1 [5] [3] 8]
    12 9 rfl rfl hset (by decide) (by decide) (by decide) (by decide) (by decide) (by decide) [3] [] true
  revert hvalid
  decide +kernel

end Wgx
