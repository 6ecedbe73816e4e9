import OmenBrowser.Server.LiveTables

/- What is sent, and to whom (the sending half of `server/src/live.rs`).

   Every fan-out is a loop that stops at the first send that fails: the answers to the origin,
   then each broadcast to its links in the order of the links. So what the server sends for a
   request is a list of deliveries, each for a link and prepared or not, and what is received
   of it is what stands before the first delivery that fails.

   A request that was executed is remembered before anything is sent. -/
namespace Omen.Server
open Wire Omen.Protocol List Act

variable {σ : Type}
  {t : Transport} {dead : LinkId → Bool} {linkId : LinkId} {ds : List Delivery}
  {x : Live σ α} {f : LiveServer σ → α} {peer : ServerPeer} {frame : Frame}
  {active : List ServerPeer} {s s₁ : LiveServer σ}

/-! Deliveries. -/

/-- Something to be sent to a link, or the reason it cannot be. -/
structure Delivery where
  linkId : LinkId
  prepared : Except ServerError Outgoing

open Delivery

variable (d : Delivery)

def Delivery.perform : Act Transport ServerError Unit :=
  match d.prepared with
  | .ok outgoing => transmit d.linkId outgoing
  | .error e => throw e

/-- The frame the link receives. -/
def Delivery.captured : Option CapturedFrame :=
  d.prepared.toOption.map (fun outgoing => ⟨d.linkId, outgoing.bytes, outgoing.context⟩)

/-- The delivery succeeds: it is prepared, and its link is not refused. -/
def Delivery.goes (dead : LinkId → Bool) (d : Delivery) : Bool :=
  d.prepared.toOption.isSome && !dead d.linkId

/-- The links the transport refuses, whichever call it is. -/
def Transport.Refuses (t : Transport) (dead : LinkId → Bool) : Prop :=
  ∀ n l, t.refuses n l = dead l

section
variable (ht : t.Refuses dead)
include ht

theorem transmit_live (hlive : dead linkId = false) (outgoing : Outgoing) :
    (transmit linkId outgoing t).1 = .ok () ∧
    (transmit linkId outgoing t).2.frames =
      t.frames ++ [⟨linkId, outgoing.bytes, outgoing.context⟩] ∧
    (transmit linkId outgoing t).2.Refuses dead := by
  have hsend : Transport.sendFrameWithContext linkId outgoing.bytes outgoing.context t =
      (.ok (), { t with
        calls := t.calls + 1
        frames := t.frames ++ [⟨linkId, outgoing.bytes, outgoing.context⟩] }) := by
    rw [Transport.sendFrameWithContext, ht, hlive]
    rfl
  unfold transmit
  rw [bind_ok hsend]
  cases outgoing.resource with
  | none => exact ⟨rfl, rfl, ht⟩
  | some resource =>
    have hoffer : (Transport.offerResource linkId resource.1 resource.2 { t with
        calls := t.calls + 1
        frames := t.frames ++ [⟨linkId, outgoing.bytes, outgoing.context⟩] }) =
      (.ok (), { t with
        calls := t.calls + 2
        frames := t.frames ++ [⟨linkId, outgoing.bytes, outgoing.context⟩]
        resources := t.resources ++ [⟨linkId, resource.1, resource.2⟩] }) := by
      rw [Transport.offerResource, show t.refuses (t.calls + 1) linkId = false from
        (ht _ _).trans hlive]
      rfl
    dsimp only
    rw [hoffer]
    exact ⟨rfl, rfl, ht⟩

theorem transmit_dead (hdead : dead linkId = true) (outgoing : Outgoing) :
    (transmit linkId outgoing t).1 = .error .io ∧ (transmit linkId outgoing t).2.frames = t.frames ∧
    (transmit linkId outgoing t).2.Refuses dead := by
  have hsend : Transport.sendFrameWithContext linkId outgoing.bytes outgoing.context t =
      (.error .io, { t with calls := t.calls + 1 }) := by
    rw [Transport.sendFrameWithContext, ht, hdead]
    rfl
  unfold transmit
  rw [bind_error hsend]
  exact ⟨rfl, rfl, ht⟩

/-- A delivery either reaches its link, or fails and leaves what was sent as it is. -/
theorem Delivery.perform_frames (d : Delivery) : (d.perform t).2.Refuses dead ∧
    (d.goes dead = true → (d.perform t).1 = .ok () ∧
      (d.perform t).2.frames = t.frames ++ d.captured.toList) ∧
    (d.goes dead = false → (∃ e, (d.perform t).1 = .error e) ∧ (d.perform t).2.frames = t.frames) := by
  obtain ⟨linkId, prepared⟩ := d
  cases prepared with
  | error e => exact ⟨ht, fun h => (by cases h), fun _ => ⟨⟨e, rfl⟩, rfl⟩⟩
  | ok outgoing =>
    cases hdead : dead linkId with
    | true =>
      obtain ⟨hresult, hframes, hrefuses⟩ := transmit_dead ht hdead outgoing
      refine ⟨hrefuses, fun h => ?_, fun _ => ⟨⟨_, hresult⟩, hframes⟩⟩
      simp [goes, hdead] at h
    | false =>
      obtain ⟨hresult, hframes, hrefuses⟩ := transmit_live ht hdead outgoing
      refine ⟨hrefuses, fun _ => ⟨hresult, hframes⟩, fun h => ?_⟩
      simp [goes, hdead, Except.toOption] at h

/-- What is received of a list of deliveries: what stands before the first that fails. -/
theorem perform_each (ds : List Delivery) : (forEach perform ds t).2.frames =
      t.frames ++ (ds.takeWhile (goes dead)).filterMap captured := by
  induction ds generalizing t with
  | nil => exact (append_nil _).symm
  | cons d ds ih =>
    obtain ⟨hrefuses, hgoes, hfails⟩ := d.perform_frames ht
    show ((d.perform >>= fun _ => forEach perform ds) t).2.frames = _
    cases h : d.goes dead with
    | true =>
      obtain ⟨hresult, hframes⟩ := hgoes h
      rw [bind_ok (Prod.ext hresult rfl), ih hrefuses, hframes, takeWhile_cons_of_pos h]
      cases hcaptured : d.captured with
      | none | some => simp [hcaptured]
    | false =>
      obtain ⟨⟨e, hresult⟩, hframes⟩ := hfails h
      rw [bind_error (Prod.ext hresult rfl), hframes, takeWhile_cons_of_neg (by simp [h])]
      simp

end

/-- Every link of the audience that is not refused has received, in order, all that was for it. -/
def Received (dead audience : LinkId → Bool) (ds : List Delivery) (before after : Transport) : Prop :=
  ∃ frames : List CapturedFrame,
    (ds.filter (fun d => audience d.linkId && !dead d.linkId)).map captured =
      frames.map some ∧
    frames.Sublist
      ((after.frames.drop before.frames.length).filter (fun frame => audience frame.linkId))

/-- From the first delivery that fails on, nothing is for a link of the audience that is not
refused. -/
def Unobstructed (dead audience : LinkId → Bool) (ds : List Delivery) : Prop :=
  ∀ d ∈ ds.dropWhile (goes dead), audience d.linkId = true → dead d.linkId = true

theorem Delivery.captured_of_goes {d : Delivery} (h : d.goes dead = true) :
    dead d.linkId = false ∧ ∃ frame, d.captured = some frame := by
  obtain ⟨hprepared, hlive⟩ := Bool.and_eq_true_iff.mp h
  obtain ⟨outgoing, houtgoing⟩ := Option.isSome_iff_exists.mp hprepared
  refine ⟨by simpa using hlive, ⟨d.linkId, outgoing.bytes, outgoing.context⟩, ?_⟩
  rw [captured, houtgoing]
  rfl

theorem Delivery.captured_linkId {d : Delivery} {frame : CapturedFrame} (h : d.captured = some frame) :
    frame.linkId = d.linkId := by
  obtain ⟨outgoing, _, rfl⟩ := Option.map_eq_some_iff.mp h
  rfl

/-- Of deliveries that all succeed, those for the audience are received by it. -/
theorem captured_audience (audience : LinkId → Bool) (hgoes : ∀ d ∈ ds, d.goes dead = true) :
    (ds.filter (fun d => audience d.linkId && !dead d.linkId)).map captured =
      ((ds.filterMap captured).filter (fun frame => audience frame.linkId)).map some := by
  induction ds with
  | nil => rfl
  | cons d ds ih =>
    obtain ⟨hlive, frame, hframe⟩ := captured_of_goes (hgoes d mem_cons_self)
    have hlink := captured_linkId hframe
    have hrest := ih fun d hd => hgoes d (mem_cons_of_mem _ hd)
    rw [filterMap_cons_some hframe]
    cases haudience : audience d.linkId with
    | true =>
      rw [filter_cons_of_pos (by simp [haudience, hlive]),
        filter_cons_of_pos (by rw [hlink, haudience]), map_cons, map_cons, hframe, hrest]
    | false =>
      rw [filter_cons_of_neg (by simp [haudience]),
        filter_cons_of_neg (by simp [hlink, haudience]), hrest]

/-- The links of the audience that are not refused receive all that was for them if and only if
nothing for them stands behind a delivery that fails. -/
theorem received_iff (ht : t.Refuses dead) (audience : LinkId → Bool) (ds : List Delivery) :
    Received dead audience ds t (forEach perform ds t).2 ↔
      Unobstructed dead audience ds := by
  have hgoes : ∀ d ∈ ds.takeWhile (goes dead), d.goes dead = true :=
    all_eq_true.mp all_takeWhile
  have hsplit : (ds.filter (fun d => audience d.linkId && !dead d.linkId)).map captured =
      (((ds.takeWhile (goes dead)).filterMap captured).filter
        (fun frame => audience frame.linkId)).map some ++
      ((ds.dropWhile (goes dead)).filter
        (fun d => audience d.linkId && !dead d.linkId)).map captured := by
    conv_lhs => rw [← takeWhile_append_dropWhile (p := goes dead) (l := ds)]
    rw [filter_append, map_append, captured_audience audience hgoes]
  have hrest : Unobstructed dead audience ds ↔ (ds.dropWhile (goes dead)).filter
      (fun d => audience d.linkId && !dead d.linkId) = [] := by
    rw [filter_eq_nil_iff]
    refine forall_congr' fun d => imp_congr_right fun _ => ?_
    cases audience d.linkId <;> cases dead d.linkId <;> simp
  unfold Received
  rw [perform_each ht, drop_left, hsplit, hrest]
  refine ⟨?_, fun hnil => ?_⟩
  · rintro ⟨frames, hframes, hsub⟩
    -- there are no more frames than deliveries that succeed
    have hlength := congrArg length hframes
    rw [length_append, length_map, length_map, length_map] at hlength
    have hle := hsub.length_le
    exact length_eq_zero_iff.mp (by omega)
  · refine ⟨_, ?_, List.Sublist.refl _⟩
    rw [hnil, map_nil, append_nil]

/-! What is added to what was sent. -/

/-- What was sent from `t` to `t'` are frames with `p` and resources with `q`, and no link was closed. -/
structure SentOnly (p : CapturedFrame → Prop) (q : CapturedResource → Prop) (t t' : Transport) : Prop where
  frames : ∃ sent, t'.frames = t.frames ++ sent ∧ ∀ frame ∈ sent, p frame
  resources : ∃ sent, t'.resources = t.resources ++ sent ∧ ∀ resource ∈ sent, q resource
  closedLinks : t'.closedLinks = t.closedLinks

theorem appended_refl {β : Type} (p : β → Prop) (l : List β) :
    ∃ sent, l = l ++ sent ∧ ∀ x ∈ sent, p x := ⟨[], (append_nil l).symm, nofun⟩

theorem appended_trans {β : Type} {p : β → Prop} {l₁ l₂ l₃ : List β}
    (h₁ : ∃ sent, l₂ = l₁ ++ sent ∧ ∀ x ∈ sent, p x) (h₂ : ∃ sent, l₃ = l₂ ++ sent ∧ ∀ x ∈ sent, p x) :
    ∃ sent, l₃ = l₁ ++ sent ∧ ∀ x ∈ sent, p x := by
  obtain ⟨first, rfl, hfirst⟩ := h₁
  obtain ⟨second, rfl, hsecond⟩ := h₂
  refine ⟨first ++ second, append_assoc _ _ _, fun x hx => ?_⟩
  rcases mem_append.mp hx with hx | hx
  · exact hfirst x hx
  · exact hsecond x hx

section
variable {p : CapturedFrame → Prop} {q : CapturedResource → Prop}

theorem SentOnly.refl (t : Transport) : SentOnly p q t t :=
  ⟨appended_refl _ _, appended_refl _ _, rfl⟩

theorem SentOnly.trans (t₁ t₂ t₃ : Transport) (h₁ : SentOnly p q t₁ t₂) (h₂ : SentOnly p q t₂ t₃) :
    SentOnly p q t₁ t₃ :=
  ⟨appended_trans h₁.frames h₂.frames, appended_trans h₁.resources h₂.resources,
    h₂.closedLinks.trans h₁.closedLinks⟩

instance : IsPreorder Transport (SentOnly p q) where
  refl := .refl
  trans := .trans

theorem sendFrame_sent {bytes : Bytes} {context : UInt8} (h : p ⟨linkId, bytes, context⟩) :
    Act.Steps (SentOnly p q) (Transport.sendFrameWithContext linkId bytes context) := by
  intro t
  unfold Transport.sendFrameWithContext
  split
  · exact ⟨appended_refl _ _, appended_refl _ _, rfl⟩
  · refine ⟨⟨[⟨linkId, bytes, context⟩], rfl, fun frame hframe => ?_⟩, appended_refl _ _, rfl⟩
    rwa [mem_singleton.mp hframe]

theorem offerResource_sent {resourceId : String} {payload : Bytes} (h : q ⟨linkId, resourceId, payload⟩) :
    Act.Steps (SentOnly p q) (Transport.offerResource linkId resourceId payload) := by
  intro t
  unfold Transport.offerResource
  split
  · exact ⟨appended_refl _ _, appended_refl _ _, rfl⟩
  · refine ⟨appended_refl _ _, ⟨[⟨linkId, resourceId, payload⟩], rfl, fun resource hresource => ?_⟩, rfl⟩
    rwa [mem_singleton.mp hresource]

variable (p q) in
theorem transmit_sent (outgoing : Outgoing) (hframe : p ⟨linkId, outgoing.bytes, outgoing.context⟩)
    (hresource : ∀ resourceId payload, q ⟨linkId, resourceId, payload⟩) :
    Act.Steps (SentOnly p q) (transmit linkId outgoing) := by
  refine .bind (sendFrame_sent hframe) fun _ => ?_
  split
  · exact .pure ()
  · exact offerResource_sent (hresource _ _)

end

/-! Actions of the server that send nothing. -/

variable {α β : Type}

/-- The server with another transport. -/
def LiveServer.on (s : LiveServer σ) (t : Transport) : LiveServer σ := { s with transport := t }

/-- The action neither looks at the transport nor uses it. -/
def Blind (x : Live σ α) : Prop := ∀ s t, x (s.on t) = ((x s).1, (x s).2.on t)

section Blind

theorem Blind.transport (h : Blind x) (s : LiveServer σ) : (x s).2.transport = s.transport :=
  congrArg (fun r => r.2.transport) (h s s.transport)

theorem Blind.pure (a : α) : Blind (Pure.pure a : Live σ α) := fun _ _ => rfl

theorem Blind.lift (r : Except ServerError α) : Blind (lift r : Live σ α) := fun _ _ => rfl

theorem Blind.throw (e : ServerError) : Blind (throw e : Live σ α) := fun _ _ => rfl

theorem Blind.onEngine (x : Act σ ServerError α) : Blind (onEngine x) := fun _ _ => rfl

theorem Blind.read {f : LiveServer σ → α} (hf : ∀ s t, f (s.on t) = f s) :
    Blind (read f : Live σ α) := by
  intro s t
  show (Except.ok (f (s.on t)), s.on t) = _
  rw [hf]
  rfl

theorem Blind.modify {f : LiveServer σ → LiveServer σ} (hf : ∀ s t, f (s.on t) = (f s).on t) :
    Blind (modify f : Live σ Unit) := by
  intro s t
  show (Except.ok (), f (s.on t)) = _
  rw [hf]
  rfl

theorem Blind.bind {x : Live σ α} {f : α → Live σ β} (hx : Blind x) (hf : ∀ a, Blind (f a)) :
    Blind (x >>= f) := by
  intro s t
  have hboth := hx s t
  rcases h : x s with ⟨r, s'⟩
  rw [h] at hboth
  cases r with
  | error e => rw [bind_error hboth, bind_error h]
  | ok a => rw [bind_ok hboth, bind_ok h, hf]

theorem Blind.forEach {x : α → Live σ Unit} (hx : ∀ a, Blind (x a)) (l : List α) :
    Blind (forEach x l) := by
  induction l with
  | nil => exact Blind.pure ()
  | cons a l ih => exact (hx a).bind fun _ => ih

end Blind

/-! Actions of the server that only send. -/

/-- The action performs these deliveries and nothing else, whatever was sent before. -/
def Performs (s : LiveServer σ) (x : Live σ Unit) (ds : List Delivery) : Prop :=
  ∀ t, x (s.on t) = ((forEach perform ds t).1, s.on (forEach perform ds t).2)

section Performs
variable {s : LiveServer σ}

theorem Performs.pure : Performs s (Pure.pure ()) [] := fun _ => rfl

theorem Performs.seq {x y : Live σ Unit} {ds' : List Delivery} (hx : Performs s x ds)
    (hy : Performs s y ds') : Performs s (x >>= fun _ => y) (ds ++ ds') := by
  intro t
  rw [forEach_append]
  rcases h : forEach perform ds t with ⟨r, t'⟩
  have hx := hx t
  rw [h] at hx
  cases r with
  | error e => rw [bind_error hx, bind_error h]
  | ok _ => rw [bind_ok hx, bind_ok h, hy t']

theorem Performs.read {f : LiveServer σ → α} {g : α → Live σ Unit} {ds : List Delivery}
    (hread : ∀ t, f (s.on t) = f s) (hg : Performs s (g (f s)) ds) : Performs s (read f >>= g) ds := by
  intro t
  rw [read_bind, hread, hg t]

theorem Performs.forEach {x : α → Live σ Unit} {plan : α → List Delivery} {l : List α}
    (hx : ∀ a ∈ l, Performs s (x a) (plan a)) : Performs s (forEach x l) (l.flatMap plan) := by
  induction l with
  | nil => exact Performs.pure
  | cons a l ih =>
    exact (hx a mem_cons_self).seq (ih fun a ha => hx a (mem_cons_of_mem _ ha))

end Performs

section Sending
variable (host : Host) (engine : SessionEngine σ)

section
variable (s : LiveServer σ)

/-- A frame for a link, as it is prepared in this state. -/
def deliveryOf (linkId : LinkId) (frame : Frame) : Delivery :=
  ⟨linkId, preflight host engine s linkId frame⟩

theorem transmit_performs (linkId : LinkId) (outgoing : Outgoing) :
    Performs s (onTransport (transmit linkId outgoing)) [⟨linkId, .ok outgoing⟩] := by
  intro t
  rw [forEach_singleton]
  rfl

theorem sendResponseFrame_performs (linkId : LinkId) (frame : Frame) :
    Performs s (sendResponseFrame host engine linkId frame) [deliveryOf host engine s linkId frame] := by
  intro t
  have hprepared : preflight host engine (s.on t) linkId frame = preflight host engine s linkId frame := rfl
  unfold sendResponseFrame deliveryOf
  rw [read_bind, id, hprepared]
  cases preflight host engine s linkId frame with
  | error e => rfl
  | ok outgoing =>
    rw [lift_bind]
    exact transmit_performs s linkId outgoing t

/-- The news of a broadcast, to each of its links. -/
def newsFor (broadcast : Frame) (targets : List LinkId) : List Delivery :=
  targets.map (fun linkId => deliveryOf host engine s linkId broadcast)

theorem sendToEach_performs (broadcast : Frame) (targets : List LinkId) :
    Performs s (sendToEach host engine broadcast targets) (newsFor host engine s broadcast targets) := by
  rw [newsFor, map_eq_flatMap]
  exact Performs.forEach fun linkId _ => sendResponseFrame_performs host engine s linkId broadcast

section
variable (origin : LinkId)

/-- The news of the broadcasts of `broadcast_room_event`. -/
def roomNews (broadcasts : List Frame) : List Delivery :=
  broadcasts.flatMap (fun broadcast =>
    newsFor host engine s broadcast (s.roomEventTargets origin broadcast))

theorem broadcastRoomEvent_performs (broadcast : Frame) :
    Performs s (broadcastRoomEvent host engine origin broadcast)
      (newsFor host engine s broadcast (s.roomEventTargets origin broadcast)) :=
  Performs.read (fun _ => rfl) (sendToEach_performs host engine s broadcast _)

def answersTo (answers : List Frame) : List Delivery :=
  answers.map (deliveryOf host engine s origin)

theorem answers_performs (answers : List Frame) :
    Performs s (forEach (sendResponseFrame host engine origin) answers)
      (answersTo host engine s origin answers) := by
  rw [answersTo, map_eq_flatMap]
  exact Performs.forEach fun frame _ => sendResponseFrame_performs host engine s origin frame

theorem deliver_performs (answers broadcasts : List Frame) :
    Performs s (deliver host engine origin answers broadcasts)
      (answersTo host engine s origin answers ++ roomNews host engine s origin broadcasts) :=
  (answers_performs host engine s origin answers).seq
    (Performs.forEach fun frame _ => broadcastRoomEvent_performs host engine s origin frame)

end

end

theorem releaseResponseResource_blind (frame : Frame) :
    Blind (releaseResponseResource engine frame : Live σ Unit) := by
  unfold releaseResponseResource
  split
  · split
    · cases uploadResourceIdFromOffer frame with
      | none => exact Blind.pure ()
      | some resourceId => exact Blind.modify fun _ _ => rfl
    · cases resourceOfferId frame.body with
      | none => exact Blind.throw _
      | some resourceId => exact Blind.modify fun _ _ => rfl
  · exact Blind.pure ()

theorem appendSnapshot_blind (kind : SnapshotKind) (linkId : LinkId) (peer : ServerPeer)
    (request : Frame) (responses : List Frame) :
    Blind (appendSnapshot engine kind linkId peer request responses) := by
  refine (Blind.read fun _ _ => rfl).bind fun active => ?_
  cases (if active then snapshotRoom responses else none) with
  | none => exact Blind.pure _
  | some roomId => exact (Blind.onEngine _).bind fun _ => Blind.pure _

section
variable (linkId : LinkId) (peer : ServerPeer)

theorem appendUserId_blind (request : Frame)
    (responses : List Frame) : Blind (appendUserId engine linkId peer request responses) := by
  refine (Blind.read fun _ _ => rfl).bind fun active => ?_
  split
  · exact (Blind.onEngine _).bind fun _ => Blind.lift _
  · exact Blind.pure _

theorem appendExtensions_blind (frame : Frame)
    (responses : List Frame) : Blind (appendExtensions engine linkId peer frame responses) := by
  refine (appendUserId_blind engine linkId peer frame responses).bind fun _ => ?_
  refine (appendSnapshot_blind engine .reactions linkId peer frame _).bind fun _ => ?_
  refine (appendSnapshot_blind engine .messageRevisions linkId peer frame _).bind fun _ => ?_
  exact appendSnapshot_blind engine .pins linkId peer frame _

theorem executeFrame_blind (frame : Frame)
    (active : List ServerPeer) : Blind (executeFrame engine linkId peer frame active) := by
  refine (Blind.read fun _ _ => rfl).bind fun _ => ?_
  exact (Blind.onEngine _).bind fun _ => appendExtensions_blind engine linkId peer frame _

theorem executeDurable_blind (frame : Frame)
    (active : List ServerPeer) (binding : DurableSessionBinding) (envelope : DurableMutationEnvelope) :
    Blind (executeDurable engine linkId peer frame active binding envelope) := by
  unfold executeDurable
  split
  · refine (Blind.read fun _ _ => rfl).bind fun _ => ?_
    split
    · exact Blind.onEngine _
    · split
      · exact Blind.pure _
      · exact Blind.pure _
  · exact Blind.onEngine _

end

theorem remember_blind (linkId : LinkId) (seq : UInt32) (fingerprint : Option Bytes)
    (answers : List Frame) : Blind (remember host linkId seq fingerprint answers : Live σ Unit) := by
  cases fingerprint with
  | none => exact Blind.pure ()
  | some request => exact Blind.modify fun _ _ => rfl

/-- What is sent for a request that was executed. -/
def legacyPlan (s : LiveServer σ) (linkId : LinkId) (frame : Frame) (responses : List Frame) :
    List Delivery :=
  answersTo host engine s linkId (originResponses frame responses) ++
    roomNews host engine s linkId (broadcastResponses frame responses)

section
variable (linkId : LinkId) (frame : Frame) (fingerprint : Option Bytes) (responses : List Frame)
  (s : LiveServer σ)

/-- What is kept once a request was executed: it is remembered, and its resources are released. -/
def settled : LiveServer σ :=
  (forEach (releaseResponseResource engine)
    (originResponses frame responses ++ broadcastResponses frame responses)
    (remember host linkId frame.seq fingerprint (originResponses frame responses) s).2).2

theorem remember_plan :
    ∃ s', remember host linkId frame.seq fingerprint (originResponses frame responses) s = (.ok (), s') ∧
      legacyPlan host engine s' linkId frame responses = legacyPlan host engine s linkId frame responses := by
  cases fingerprint with
  | none => exact ⟨s, rfl, rfl⟩
  | some request => exact ⟨_, rfl, rfl⟩

end

/-- A request that was executed leaves the same server behind, whatever becomes of its answers and
its news. -/
theorem handleNewFrame_executed {responses : List Frame}
    (hexecuted : executeFrame engine linkId peer frame active s = (.ok responses, s₁))
    (fingerprint : Option Bytes) (t : Transport) :
    (handleNewFrame host engine linkId peer frame fingerprint active (s.on t)).2 =
      (settled host engine linkId frame fingerprint responses s₁).on
        (forEach perform (legacyPlan host engine s₁ linkId frame responses) t).2 := by
  obtain ⟨s₂, hremembered, hplan⟩ := remember_plan host engine linkId frame fingerprint responses s₁
  have hexecuted' : executeFrame engine linkId peer frame active (s.on t) = (.ok responses, s₁.on t) := by
    rw [executeFrame_blind, hexecuted]
  have hremembered' := remember_blind host linkId frame.seq fingerprint (originResponses frame responses) s₁ t
  rw [hremembered] at hremembered'
  have hdelivered := deliver_performs host engine s₂ linkId (originResponses frame responses)
    (broadcastResponses frame responses) t
  have hreleased := Blind.forEach (releaseResponseResource_blind engine)
    (originResponses frame responses ++ broadcastResponses frame responses) s₂
  unfold handleNewFrame settled
  rw [bind_ok hexecuted', bind_ok hremembered', attempt_bind, hdelivered,
    bind_state fun _ _ => ?_, hreleased, hremembered, ← hplan]
  · rfl
  · exact bind_state (fun _ _ => rfl) _

theorem handleNewFrame_failed {e : ServerError}
    (hfailed : executeFrame engine linkId peer frame active s = (.error e, s₁))
    (fingerprint : Option Bytes) :
    handleNewFrame host engine linkId peer frame fingerprint active s = (.error e, s₁) :=
  bind_error hfailed

/-- What is sent for a durable mutation, in the state its disconnects leave. -/
def durablePlan (s : LiveServer σ) (linkId : LinkId) (dispatch : DurableMutationDispatch)
    (targets : Frame → List LinkId) : List Delivery :=
  answersTo host engine s linkId [dispatch.origin] ++
    dispatch.broadcasts.flatMap (fun broadcast => newsFor host engine s broadcast (targets broadcast))

theorem colourTargets_on (s : LiveServer σ) (t : Transport) (actorRooms : List UInt32)
    (links : List (LinkId × Bytes)) :
    (s.on t).colourTargets engine actorRooms links = s.colourTargets engine actorRooms links := by
  induction links with
  | nil => rfl
  | cons link links ih =>
    obtain ⟨linkId, identityHash⟩ := link
    unfold LiveServer.colourTargets
    rw [ih]
    rfl

theorem durableTargets_on (s : LiveServer σ) (t : Transport) (origin : LinkId) (actor : ServerPeer)
    (broadcast : Frame) :
    (s.on t).durableTargets engine origin actor broadcast =
      s.durableTargets engine origin actor broadcast := by
  have hcolours : (s.on t).nicknameColourTargets engine actor = s.nicknameColourTargets engine actor := by
    unfold LiveServer.nicknameColourTargets
    simp only [colourTargets_on]
    rfl
  unfold LiveServer.durableTargets
  cases broadcast.op with
  | nicknameColourEvent => exact hcolours
  | _ => rfl

theorem broadcastDurable_performs {origin : LinkId} {actor : ServerPeer} {broadcast : Frame}
    {targets : List LinkId}
    (htargets : s.durableTargets engine origin actor broadcast = .ok targets) :
    Performs s (broadcastDurable host engine origin actor broadcast)
      (newsFor host engine s broadcast targets) := by
  intro t
  have htargets' := (durableTargets_on engine s t origin actor broadcast).trans htargets
  unfold broadcastDurable
  rw [read_bind, id, htargets', lift_bind]
  exact sendToEach_performs host engine s broadcast targets t

/-- Once its disconnects are made, a durable mutation only sends. -/
theorem deliverDurable_state {dispatch : DurableMutationDispatch} {s₂ : LiveServer σ}
    {targets : Frame → List LinkId}
    (hdisconnected : (disconnectTarget host engine dispatch.disconnectIdentity s).2 = s₂)
    (htargets : ∀ broadcast ∈ dispatch.broadcasts,
      s₂.durableTargets engine linkId peer broadcast = .ok (targets broadcast)) :
    (deliverDurable host engine linkId peer frame dispatch s).2 =
      s₂.on (forEach perform (durablePlan host engine s₂ linkId dispatch targets)
        s₂.transport).2 := by
  have hsent : Performs s₂ (forEach (sendResponseFrame host engine linkId) [dispatch.origin] >>=
      fun _ => forEach (broadcastDurable host engine linkId peer) dispatch.broadcasts)
      (durablePlan host engine s₂ linkId dispatch targets) :=
    (answers_performs host engine s₂ linkId [dispatch.origin]).seq
      (Performs.forEach fun broadcast h => broadcastDurable_performs host engine (htargets broadcast h))
  unfold deliverDurable
  rw [bind_ok (Prod.ext (disconnectTarget_ok host engine _ s) hdisconnected),
    ← forEach_singleton (sendResponseFrame host engine linkId), ← bind_assoc,
    bind_state fun _ _ => rfl]
  exact congrArg Prod.snd (hsent s₂.transport)

/-! What a disconnect sends does not change which links are refused. -/

def SameRefusals (s s' : LiveServer σ) : Prop := s'.transport.refuses = s.transport.refuses

theorem SameRefusals.refl (s : LiveServer σ) : SameRefusals s s := rfl

theorem SameRefusals.trans (s₁ s₂ s₃ : LiveServer σ) (h₁ : SameRefusals s₁ s₂)
    (h₂ : SameRefusals s₂ s₃) : SameRefusals s₁ s₃ := Eq.trans h₂ h₁

instance : IsPreorder (LiveServer σ) SameRefusals where
  refl := SameRefusals.refl
  trans := SameRefusals.trans

theorem Blind.refusals (h : Blind x) : Act.Steps SameRefusals x :=
  fun s => congrArg Transport.refuses (h.transport s)

theorem transmit_refusals (linkId : LinkId) (outgoing : Outgoing) (t : Transport) :
    (transmit linkId outgoing t).2.refuses = t.refuses := by
  have hsent : (Transport.sendFrameWithContext linkId outgoing.bytes outgoing.context t).2.refuses =
      t.refuses := by
    unfold Transport.sendFrameWithContext
    split <;> rfl
  unfold transmit
  rcases h : Transport.sendFrameWithContext linkId outgoing.bytes outgoing.context t with ⟨r, t'⟩
  rw [h] at hsent
  cases r with
  | error e =>
    rw [bind_error h]
    exact hsent
  | ok _ =>
    rw [bind_ok h]
    cases outgoing.resource with
    | none => exact hsent
    | some resource =>
      rw [← hsent]
      show (Transport.offerResource linkId resource.1 resource.2 t').2.refuses = _
      unfold Transport.offerResource
      split <;> rfl

theorem sendResponseFrame_refusals (linkId : LinkId) (frame : Frame) :
    Act.Steps SameRefusals (sendResponseFrame host engine linkId frame) := by
  refine .bind (.read _) fun _ => ?_
  refine .bind (.lift _) fun outgoing => ?_
  exact fun s => transmit_refusals linkId outgoing s.transport

theorem broadcastUserlistForRoom_refusals (roomId : UInt32) :
    Act.Steps SameRefusals (broadcastUserlistForRoom host engine roomId) := by
  refine .bind (.read _) fun _ => ?_
  refine .bind (.read _) fun _ => ?_
  refine .forEach (fun linkId => ?_) _
  refine .bind (.read _) fun _ => ?_
  refine .bind (Blind.onEngine _).refusals fun frame => ?_
  refine .bind
    (.attempt (sendResponseFrame_refusals host engine linkId frame)) fun _ => ?_
  refine .bind (releaseResponseResource_blind engine frame).refusals fun _ => ?_
  exact .lift _

theorem disconnectTarget_refusals (target : Option Bytes) :
    Act.Steps SameRefusals (disconnectTarget host engine target) := by
  cases target with
  | none => exact .pure ()
  | some identityHash =>
    refine .bind (.read _) fun links => ?_
    refine .bind (.read _) fun _ => ?_
    refine .bind (.modify SameRefusals.refl) fun _ => ?_
    refine .bind (.modify fun s => ?_) fun _ => ?_
    · induction links generalizing s with
      | nil => rfl
      | cons linkId links ih => exact ih _
    · refine .forEach (fun roomId => ?_) _
      refine .bind
        (.attempt (broadcastUserlistForRoom_refusals host engine roomId)) fun _ => ?_
      exact .pure ()

end Sending

end Omen.Server
