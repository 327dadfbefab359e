import ProofStell.Webhook.Requests

/-! Deliveries over a network that loses requests and replies, to receivers that deduplicate as
the documentation recommends. -/
namespace ProofStell.Webhook
variable {DateTime σ : Type}

/-- What becomes of a request: it never arrives, or it arrives some seconds later and its
answer is lost or comes back. -/
inductive Fate where
  | lost (error : String)
  | unanswered (delay : Nat) (error : String)
  | answered (delay : Nat)

structure World where
  clock : Nat
  receivers : String → Receiver

def World.start : World := ⟨0,fun _ => .empty⟩

namespace World
variable (c : Channel)

def arrive (delay : Nat) (r : Request) (w : World) : Idempotent.Verdict × World :=
  let (verdict,receiver) := c.protocol.receive ⟨r,w.clock+delay⟩ (w.receivers r.url)
  (verdict,⟨w.clock+delay,Function.update w.receivers r.url receiver⟩)

def post (fate : Fate) (r : Request) (w : World) : Except String UInt16 × World :=
  match fate with
  | .lost e => (.error e,w)
  | .unanswered delay e => (.error e,(w.arrive c delay r).2)
  | .answered delay => (.ok (statusOf (w.arrive c delay r).1),(w.arrive c delay r).2)

end World

section
variable (c : Channel) (serde : Serde DateTime)

/-- An effect of the dispatcher as the network shows it: a send ends as its fate has it. -/
def Exchanged (e : Effect DateTime) (w v : World) : Prop :=
  match e with
  | .send url payload _ result =>
    ∃ fate, c.sendOnce serde url payload (World.post c fate) w = (result,v)
  | .success _ | .deadLetter _ => v = w

inductive Network : List (Effect DateTime) → World → World → Prop
  | nil (w : World) : Network [] w w
  | cons {e : Effect DateTime} {es : List (Effect DateTime)} {w v u : World} :
      Exchanged c serde e w v → Network es v u → Network (e::es) w u

structure World.Sound (h : List (Effect DateTime)) (w : World) : Prop where
  orderly : ∀ url, c.protocol.Orderly w.clock (w.receivers url)
  /-- What was processed was sent. -/
  sent : ∀ url, ∀ a∈(w.receivers url).processed, ∃ payload attempt result,
    .send url payload attempt result∈h ∧ a.request = c.request serde url payload
  /-- What was confirmed was processed. -/
  confirmed : ∀ url payload attempt, .send url payload attempt (.ok ())∈h →
    ∃ a∈(w.receivers url).processed, a.key = payload.idempotencyKey

end

variable {c : Channel} {serde : Serde DateTime} {h : List (Effect DateTime)} {w v : World}

theorem sound_start : World.start.Sound c serde [] where
  orderly _ := c.protocol.orderly_empty
  sent _ _ ha := (by cases ha)
  confirmed _ _ _ hs := (by cases hs)

theorem World.Sound.unseen (hw : w.Sound c serde h) {e : Effect DateTime}
    (hfail : ∀ url payload attempt, e≠.send url payload attempt (.ok ())) :
    w.Sound c serde (h++[e]) where
  orderly := hw.orderly
  sent url a ha := by
    obtain ⟨payload,attempt,result,hmem,hreq⟩ := hw.sent url a ha
    exact ⟨payload,attempt,result,List.mem_append_left _ hmem,hreq⟩
  confirmed url payload attempt hs := by
    obtain hs | hs := List.mem_append.mp hs
    · exact hw.confirmed url payload attempt hs
    · exact absurd (List.mem_singleton.mp hs).symm (hfail url payload attempt)

theorem arrive_accepted (delay : Nat) (url : String) (payload : WebhookPayload DateTime)
    (w : World) : (w.arrive c delay (c.request serde url payload)).1≠.refused :=
  Idempotent.Protocol.receive_genuine (P := c.protocol)
    (a := ⟨c.request serde url payload,w.clock+delay⟩) (request_verifies c serde url payload)

theorem statusOf_success {verdict : Idempotent.Verdict} (h : verdict≠.refused) :
    Stellar.isSuccess (statusOf verdict) = true := by
  cases verdict with
  | refused => exact absurd rfl h
  | duplicate | processed => decide

theorem World.Sound.arrive (hw : w.Sound c serde h) (hlife : 0 < c.ttl) (delay : Nat)
    (url : String) (payload : WebhookPayload DateTime) (attempt : Nat)
    (result : Except String Unit) :
    (w.arrive c delay (c.request serde url payload)).2.Sound c serde
      (h++[.send url payload attempt result]) := by
  have hlater : w.clock ≤ w.clock+delay := Nat.le_add_right _ _
  have htime : w.clock ≤ c.protocol.time ⟨c.request serde url payload,w.clock+delay⟩ := hlater
  have hreceivers (u : String) : (w.arrive c delay (c.request serde url payload)).2.receivers u =
      if u = url then
        (c.protocol.receive ⟨c.request serde url payload,w.clock+delay⟩ (w.receivers url)).2
      else w.receivers u := Function.update_apply ..
  refine ⟨fun u => ?_,fun u a ha => ?_,fun u p i hs => ?_⟩
  · rw [hreceivers]
    split
    · exact (hw.orderly url).receive htime
    · exact (hw.orderly u).later hlater
  · rw [hreceivers] at ha
    split at ha
    · next hu =>
      subst hu
      obtain ha | ⟨rfl,_⟩ := Idempotent.Protocol.mem_receive.mp ha
      · obtain ⟨p,i,r,hmem,hreq⟩ := hw.sent u a ha
        exact ⟨p,i,r,List.mem_append_left _ hmem,hreq⟩
      · exact ⟨payload,attempt,result,by simp,rfl⟩
    · obtain ⟨p,i,r,hmem,hreq⟩ := hw.sent u a ha
      exact ⟨p,i,r,List.mem_append_left _ hmem,hreq⟩
  · rw [hreceivers]
    obtain hs | hs := List.mem_append.mp hs
    · obtain ⟨a,ha,hkey⟩ := hw.confirmed u p i hs
      split
      · next hu =>
        subst hu
        exact ⟨a,Idempotent.Protocol.mem_receive.mpr (Or.inl ha),hkey⟩
      · exact ⟨a,ha,hkey⟩
    · obtain ⟨rfl,rfl,_,_⟩ := Effect.send.inj (List.mem_singleton.mp hs)
      obtain ⟨a,ha,hkey,_⟩ := (hw.orderly u).covered htime hlife
        (arrive_accepted delay u p w)
      rw [if_pos rfl]
      exact ⟨a,ha,hkey.trans (arrival_key c serde u p (w.clock+delay))⟩

theorem World.Sound.step (hw : w.Sound c serde h) (hlife : 0 < c.ttl) {e : Effect DateTime}
    (he : Exchanged c serde e w v) : v.Sound c serde (h++[e]) := by
  cases e with
  | success url | deadLetter entry =>
    rw [Exchanged] at he
    subst he
    exact hw.unseen fun _ _ _ => (by simp)
  | send url payload attempt result =>
    obtain ⟨fate,hsend⟩ := he
    rw [Channel.sendOnce] at hsend
    split at hsend
    · cases fate with
      | lost e =>
        obtain ⟨rfl,rfl⟩ := Prod.mk.inj hsend
        exact hw.unseen fun _ _ _ => (by simp)
      | unanswered delay e =>
        obtain ⟨rfl,rfl⟩ := Prod.mk.inj hsend
        exact hw.arrive hlife delay url payload attempt _
      | answered delay =>
        simp only [World.post,statusOf_success (arrive_accepted delay url payload w),
          if_true] at hsend
        obtain ⟨rfl,rfl⟩ := Prod.mk.inj hsend
        exact hw.arrive hlife delay url payload attempt _
    · obtain ⟨rfl,rfl⟩ := Prod.mk.inj hsend
      exact hw.unseen fun _ _ _ => (by simp)

theorem Network.sound (hlife : 0 < c.ttl) {es : List (Effect DateTime)}
    (hrun : Network c serde es w v) (hw : w.Sound c serde h) : v.Sound c serde (h++es) := by
  induction hrun generalizing h with
  | nil w => simpa using hw
  | cons he _ ih => simpa using ih (hw.step hlife he)

theorem success_sent {d : WebhookDispatcher DateTime σ} {send : Nat → Except String Unit}
    (hok : d.attemptAll send = none) (url : String) (payload : WebhookPayload DateTime) :
    ∃ attempt, .send url payload attempt (.ok ())∈
      sends url payload send (d.maxRetries.toNat+1) 0 := by
  obtain ⟨k,_,_,hsend,_,heff⟩ | ⟨e,_,hloop,_,_⟩ :=
    sends_spec url payload send (d.maxRetries.toNat+1) 0 "no attempts made"
  · rw [Nat.zero_add] at hsend
    refine ⟨k,?_⟩
    rw [heff,← hsend]
    refine List.mem_append_left _ (List.mem_map.mpr ⟨k,?_,rfl⟩)
    rw [List.mem_range'_1]
    omega
  · rw [WebhookDispatcher.attemptAll,hloop] at hok
    cases hok

theorem mem_effects_send {d : WebhookDispatcher DateTime σ} {l : List (Action DateTime)}
    {url : String} {payload : WebhookPayload DateTime} {attempt : Nat}
    {result : Except String Unit} (hs : .send url payload attempt result∈l.flatMap (effects d)) :
    ∃ event script, .dispatch event script∈l ∧ url∈d.urls ∧ payload = .ofEvent event := by
  have only (url' : String) (payload' : WebhookPayload DateTime) (send : Nat → Except String Unit)
      (remaining a : Nat) (h : .send url payload attempt result∈
        sends url' payload' send remaining a) : url = url' ∧ payload = payload' := by
    induction remaining generalizing a with
    | zero => cases h
    | succ remaining ih =>
      rw [sends] at h
      split at h
      · simp only [List.mem_cons,List.not_mem_nil,Effect.send.injEq,reduceCtorEq,or_false] at h
        exact ⟨h.1,h.2.1⟩
      · obtain h | h := List.mem_cons.mp h
        · obtain ⟨rfl,rfl,_⟩ := Effect.send.inj h
          exact ⟨rfl,rfl⟩
        · exact ih _ h
  obtain ⟨a,ha,hmem⟩ := List.mem_flatMap.mp hs
  cases a with
  | drainDlq | dlqDepth => cases hmem
  | dispatch event script =>
    obtain ⟨u,hu,hmem⟩ := List.mem_flatMap.mp hmem
    obtain hmem | hmem := List.mem_append.mp hmem
    · obtain ⟨rfl,rfl⟩ := only _ _ _ _ _ hmem
      exact ⟨event,script,ha,(List.mem_zipIdx' hu).2 ▸ List.getElem_mem _,rfl⟩
    · simp at hmem

/-- Retries, replays and lost replies are processed once by receivers that follow the
recommendation and share the secret, whatever the network does. -/
theorem processed_once {d : WebhookDispatcher DateTime σ} (hd : d.cache = none)
    (hlife : 0 < c.ttl) (l : List (Action DateTime)) (s : σ)
    (hrun : Network c d.serde (Machine.final (callLogged d) l (⟨[],s⟩,[])).2 .start w) :
    (∀ url, (w.receivers url).processed.Pairwise fun a b =>
      a.key = b.key → a.time+c.ttl ≤ b.time) ∧
    (∀ url, ∀ a∈(w.receivers url).processed, ∃ event script, .dispatch event script∈l ∧
      url∈d.urls ∧ a.request = c.request d.serde url (.ofEvent event)) ∧
    (w.clock < c.ttl → ∀ event script, .dispatch event script∈l → ∀ u∈d.urls.zipIdx,
      d.attemptAll (script.send u.2) = none →
      ∃ a, (w.receivers u.1).processed.filter (·.key = event.idempotencyKey) = [a] ∧
        ((∀ event' script', .dispatch event' script'∈l →
            event'.idempotencyKey = event.idempotencyKey →
            WebhookPayload.ofEvent event' = .ofEvent event) →
          a.request = c.request d.serde u.1 (.ofEvent event))) := by
  have hsound := hrun.sound hlife sound_start
  rw [logged_run hd,List.nil_append,List.nil_append] at hsound
  have hsource : ∀ url, ∀ a∈(w.receivers url).processed, ∃ event script,
      .dispatch event script∈l ∧ url∈d.urls ∧
        a.request = c.request d.serde url (.ofEvent event) := by
    intro url a ha
    obtain ⟨payload,attempt,result,hmem,hreq⟩ := hsound.sent url a ha
    obtain ⟨event,script,hevent,hurl,rfl⟩ := mem_effects_send hmem
    exact ⟨event,script,hevent,hurl,hreq⟩
  refine ⟨fun url => (hsound.orderly url).apart,hsource,?_⟩
  intro hshort event script hevent u hu hok
  obtain ⟨attempt,hsent⟩ := success_sent hok u.1 (.ofEvent event)
  have hmem : .send u.1 (.ofEvent event) attempt (.ok ())∈l.flatMap (effects d) :=
    List.mem_flatMap.mpr ⟨_,hevent,List.mem_flatMap.mpr ⟨u,hu,List.mem_append_left _ hsent⟩⟩
  obtain ⟨a,ha,hkey⟩ := hsound.confirmed _ _ _ hmem
  refine ⟨a,?_,fun hkeys => ?_⟩
  · have honce := (hsound.orderly u.1).once hshort ha
    rwa [show c.protocol.token a = event.idempotencyKey from hkey] at honce
  · obtain ⟨event',script',hevent',_,hreq⟩ := hsource u.1 a ha
    have hkey' : a.key = event'.idempotencyKey := by
      rw [Arrival.key,hreq,header_idempotencyKey,Option.getD_some]
      rfl
    rw [hreq,hkeys event' script' hevent' (hkey'.symm.trans hkey)]

/-- The first reply is lost, so the request is sent again: the receiver knows its key. -/
theorem processed_once_after_lost_reply :
    let c : Channel := ⟨⟨fun _ _ => [],fun _ => "",fun _ => true,"builder error",
      fun _ => "401 Unauthorized"⟩,none,3600⟩
    let d : WebhookDispatcher String Unit := .new ["https://a"] 1 (knowing [])
    let event : Audit.Event String := ⟨"e1","doc-1","DocumentRegistered",.null,
      "2024-01-01T00:00:00Z",1,"issuer","k1",.contract,none⟩
    let script : Script String := ⟨fun _ attempt =>
      if attempt = 1 then .ok () else .error "operation timed out",fun _ => "2024-01-01T00:00:01Z"⟩
    ∃ w : World, Network c d.serde (effects d (.dispatch event script)) .start w ∧
      (w.receivers "https://a").processed.map (·.time) = [5] ∧
      ∃ a : Arrival, (w.receivers "https://a").processed.filter (·.key = "k1") = [a] ∧
        a.request = c.request d.serde "https://a" (.ofEvent event) := by
  intro c d event script
  let first := (World.start.arrive c 5 (c.request d.serde "https://a" (.ofEvent event))).2
  let second := (first.arrive c 2 (c.request d.serde "https://a" (.ofEvent event))).2
  have hrun : Network c d.serde (effects d (.dispatch event script)) .start second := by
    refine .cons (v := first) ⟨.unanswered 5 "operation timed out",rfl⟩ ?_
    exact .cons (v := second) ⟨.answered 2,rfl⟩ (.cons rfl (.nil _))
  obtain ⟨a,honce,hrequest⟩ := (processed_once (d := d) rfl (by decide) [.dispatch event script] ()
    hrun).2.2 (by decide) event script (by simp) ("https://a",0) (List.mem_singleton.mpr rfl) rfl
  refine ⟨second,hrun,rfl,a,honce,hrequest fun event' script' hevent' _ => ?_⟩
  obtain ⟨rfl,rfl⟩ := Action.dispatch.inj (List.mem_singleton.mp hevent')
  rfl

theorem deliveryEffects_kinds {d : WebhookDispatcher DateTime σ} {url : String}
    {payload : WebhookPayload DateTime} {send : Nat → Except String Unit} {failedAt : DateTime}
    {e : Effect DateTime} (he : e∈deliveryEffects d url payload send failedAt) :
    (∃ attempt result, e = .send url payload attempt result) ∨ e = .success url ∨
      ∃ entry, e = .deadLetter entry := by
  have kinds (remaining a : Nat) (h : e∈sends url payload send remaining a) :
      (∃ attempt result, e = .send url payload attempt result) ∨ e = .success url := by
    induction remaining generalizing a with
    | zero => cases h
    | succ remaining ih =>
      rw [sends] at h
      split at h
      · simp only [List.mem_cons,List.not_mem_nil,or_false] at h
        exact h.imp (fun h => ⟨_,_,h⟩) id
      · obtain rfl | h := List.mem_cons.mp h
        · exact Or.inl ⟨_,_,rfl⟩
        · exact ih _ h
  obtain he | he := List.mem_append.mp he
  · exact (kinds _ _ he).imp id Or.inl
  · rw [Option.mem_toList,Option.map_eq_some_iff] at he
    obtain ⟨lastError,_,rfl⟩ := he
    exact Or.inr (Or.inr ⟨_,rfl⟩)

theorem Network.unbuilt {payload : WebhookPayload DateTime}
    (hbad : c.sendable serde payload = false) {es : List (Effect DateTime)}
    (hes : ∀ url p attempt result, .send url p attempt result∈es → p = payload)
    (hrun : Network c serde es w v) : v = w ∧ ∀ url p attempt result,
      .send url p attempt result∈es → result = .error c.http.builderError := by
  induction hrun with
  | nil w => exact ⟨rfl,fun _ _ _ _ hs => (by cases hs)⟩
  | @cons e es w v u he _ ih =>
    obtain ⟨rfl,hrest⟩ := ih fun url p attempt result hs =>
      hes url p attempt result (List.mem_cons_of_mem _ hs)
    cases e with
    | send url p attempt result =>
      obtain rfl := hes url p attempt result List.mem_cons_self
      obtain ⟨fate,hsend⟩ := he
      rw [c.sendOnce_unsendable hbad] at hsend
      obtain ⟨rfl,rfl⟩ := Prod.mk.inj hsend
      refine ⟨rfl,fun url' p' attempt' result' hs => ?_⟩
      obtain hs | hs := List.mem_cons.mp hs
      · exact (Effect.send.inj hs).2.2.2
      · exact hrest _ _ _ _ hs
    | success _ | deadLetter _ =>
      refine ⟨he,fun url p attempt result hs => hrest url p attempt result ?_⟩
      exact (List.mem_cons.mp hs).resolve_left (by simp)

/-- An event with a key, id or type that no header can carry never leaves. Its dispatch reaches
no receiver, and at every URL it ends as a dead letter after the last attempt. -/
theorem unsendable_dead_lettered {d : WebhookDispatcher DateTime σ}
    (hmax : d.maxRetries.toNat < 2^32-1) (event : Audit.Event DateTime)
    (script : Script DateTime) (hbad : c.sendable d.serde (.ofEvent event) = false)
    (hrun : Network c d.serde (effects d (.dispatch event script)) w v) :
    v = w ∧ ∀ u∈d.urls.zipIdx, ∃ attempts : UInt32, attempts.toNat = d.maxRetries.toNat+1 ∧
      deliveryEffects d u.1 (.ofEvent event) (script.send u.2) (script.failedAt u.2) =
        (List.range (d.maxRetries.toNat+1)).map (fun attempt =>
          .send u.1 (.ofEvent event) attempt (.error c.http.builderError))++
        [.deadLetter ⟨u.1,.ofEvent event,attempts,c.http.builderError,script.failedAt u.2⟩] := by
  obtain ⟨hsame,hfail⟩ := hrun.unbuilt hbad fun url p attempt result hs => by
    obtain ⟨u,_,hs⟩ := List.mem_flatMap.mp hs
    obtain ⟨_,_,heq⟩ | heq | ⟨_,heq⟩ := deliveryEffects_kinds hs
    · exact (Effect.send.inj heq).2.1
    · cases heq
    · cases heq
  refine ⟨hsame,fun u hu => ?_⟩
  have failed {attempt : Nat} {result : Except String Unit}
      (hs : .send u.1 (.ofEvent event) attempt result∈deliveryEffects d u.1 (.ofEvent event)
        (script.send u.2) (script.failedAt u.2)) : result = .error c.http.builderError :=
    hfail _ _ _ _ (List.mem_flatMap.mpr ⟨u,hu,hs⟩)
  obtain ⟨k,_,_,hok,heff⟩ | ⟨attempts,lastError,_,hlast,hattempts,heff⟩ :=
    delivery_ends_once (d := d) hmax u.1 (.ofEvent event) (script.send u.2) (script.failedAt u.2)
  · have hmem : .send u.1 (.ofEvent event) k (.ok ())∈deliveryEffects d u.1 (.ofEvent event)
        (script.send u.2) (script.failedAt u.2) := by
      rw [heff,← hok,sent]
      exact List.mem_append_left _ (List.mem_map.mpr ⟨k,by simp,rfl⟩)
    cases failed hmem
  · have all (attempt : Nat) (ha : attempt∈List.range (d.maxRetries.toNat+1)) :
        script.send u.2 attempt = .error c.http.builderError := by
      have hmem : .send u.1 (.ofEvent event) attempt (script.send u.2 attempt)∈
          deliveryEffects d u.1 (.ofEvent event) (script.send u.2) (script.failedAt u.2) := by
        rw [heff,sent]
        exact List.mem_append_left _ (List.mem_map.mpr ⟨attempt,ha,rfl⟩)
      exact failed hmem
    have herror : lastError = c.http.builderError := by
      rw [all d.maxRetries.toNat (by simp)] at hlast
      exact (Except.error.inj hlast).symm
    refine ⟨attempts,hattempts,?_⟩
    rw [heff,sent,herror]
    congr 1
    exact List.map_congr_left fun attempt ha => by rw [all attempt ha]

/-- A line break in the aggregate id ends up in the key. -/
theorem unsendable_dead_lettered_with_line_break :
    let c : Channel := ⟨⟨fun _ _ => [],fun _ => "",fun s => s.toList.all fun x => x ≠ '\n',
      "builder error",fun _ => "401 Unauthorized"⟩,none,3600⟩
    let d : WebhookDispatcher String Unit := .new ["https://a"] 0 (knowing [])
    let event : Audit.Event String := ⟨"e1","doc\n1","DocumentRegistered",.null,
      "2024-01-01T00:00:00Z",1,"issuer","contract:tx:1:0:doc\n1:DocumentRegistered",.contract,none⟩
    let script : Script String := ⟨fun _ _ => .error "builder error",fun _ => "2024-01-01T00:00:01Z"⟩
    Network c d.serde (effects d (.dispatch event script)) .start .start ∧
    ∃ attempts : UInt32, attempts.toNat = 1 ∧
      deliveryEffects d "https://a" (.ofEvent event) (script.send 0) (script.failedAt 0) =
        [.send "https://a" (.ofEvent event) 0 (.error "builder error"),
          .deadLetter ⟨"https://a",.ofEvent event,attempts,"builder error",
            "2024-01-01T00:00:01Z"⟩] := by
  intro c d event script
  have hbad : c.sendable d.serde (.ofEvent event) = false := by decide
  have hrun : Network c d.serde (effects d (.dispatch event script)) .start .start :=
    .cons ⟨.lost "",c.sendOnce_unsendable hbad "https://a" _ _⟩ (.cons rfl (.nil _))
  exact ⟨hrun,(unsendable_dead_lettered (c := c) (d := d) (by decide) event script hbad hrun).2
    ("https://a",0) (List.mem_singleton.mpr rfl)⟩

end ProofStell.Webhook
