import OmenBrowser.Server.DurableReplay

/- At most once.

   The stored result of a mutation can be deleted by any later commit, of any client.
   What keeps the mutation from running again is that a deletion retires the client
   instance: `Evolves` says of every part of a commit that a row stays, with its hash
   and its frame, or its client instance is retired, and that registered and retired
   client instances stay so. From it `Executed`, the state after a mutation has run, is
   kept by every commit whatever it does, and in such a state a commit under the key
   answers from the row or refuses (`commit_executed`).

   A run is made of commits, of commits in which the database fails, and of restarts,
   which keep the tables. -/
namespace Omen.Server
open Wire Sql Ints Omen.Protocol
variable {σ : Type}

/-! Client instances and rows over a commit. -/

def Registered (s : ReplayStore σ) (client : ClientKey) : Prop :=
  ∃ c ∈ s.clients.rows, c.key = client

def Retired (s : ReplayStore σ) (client : ClientKey) : Prop :=
  ∃ c ∈ s.clients.rows, c.key = client ∧ c.retiredAt.isSome = true

/-- The result of a mutation, under its key, hash and frame. -/
def Holds (s : ReplayStore σ) (key : DurableMutationKey) (hash : RequestHash) (frame : Bytes) :
    Prop :=
  ∃ r ∈ s.results.rows, r.key = key ∧ r.requestHash = hash ∧ r.resultFrame = frame

/-- What any part of a commit may do to the two tables. -/
structure Evolves (s s' : ReplayStore σ) : Prop where
  registered : ∀ client, Registered s client → Registered s' client
  retired : ∀ client, Retired s client → Retired s' client
  kept : ∀ key hash frame, Holds s key hash frame → Holds s' key hash frame ∨ Retired s' key.client

theorem Evolves.refl (s : ReplayStore σ) : Evolves s s :=
  ⟨fun _ h => h, fun _ h => h, fun _ _ _ h => .inl h⟩

theorem Evolves.trans {s₁ s₂ s₃ : ReplayStore σ} (h₁ : Evolves s₁ s₂) (h₂ : Evolves s₂ s₃) :
    Evolves s₁ s₃ := by
  refine ⟨?_, ?_, ?_⟩
  · exact fun client h => h₂.registered client (h₁.registered client h)
  · exact fun client h => h₂.retired client (h₁.retired client h)
  · intro key hash frame h
    rcases h₁.kept key hash frame h with h | h
    · exact h₂.kept key hash frame h
    · exact .inr (h₂.retired _ h)

/-- Client rows may change as long as they keep their keys and their retirement. -/
theorem Evolves.updateClients {p : ClientRow → Bool} {f : ClientRow → ClientRow}
    {hf : ∀ c, (f c).key = c.key}
    (hr : ∀ c, c.retiredAt.isSome = true → (f c).retiredAt.isSome = true) :
    Evolves s { s with clients := s.clients.updateWhere p f hf } := by
  refine ⟨?_, ?_, fun _ _ _ h => .inl h⟩
  · intro client ⟨c, hc, hk⟩
    refine ⟨_, List.mem_map_of_mem hc, ?_⟩
    split
    · rw [hf, hk]
    · exact hk
  · intro client ⟨c, hc, hk, hret⟩
    refine ⟨_, List.mem_map_of_mem hc, ?_⟩
    split
    · exact ⟨by rw [hf, hk], hr c hret⟩
    · exact ⟨hk, hret⟩

theorem Evolves.insertClient {row : ClientRow} (h : s.insertClient row = .ok s') :
    Evolves s s' := by
  obtain ⟨hres, hrows, _⟩ := insertClient_ok h
  refine ⟨?_, ?_, ?_⟩
  · intro client ⟨c, hc, hk⟩
    exact ⟨c, by rw [hrows]; exact List.mem_cons_of_mem _ hc, hk⟩
  · intro client ⟨c, hc, hk⟩
    exact ⟨c, by rw [hrows]; exact List.mem_cons_of_mem _ hc, hk⟩
  · intro key hash frame hold
    refine .inl ?_
    rw [Holds, hres]
    exact hold

theorem Evolves.touchResult (key : DurableMutationKey) (now : Int) (s : ReplayStore σ) :
    Evolves s (touchResult key now s) := by
  refine ⟨fun _ h => h, fun _ h => h, ?_⟩
  intro k hash frame ⟨r, hr, hk, hh, hf⟩
  refine .inl ⟨_, List.mem_map_of_mem hr, ?_⟩
  split
  · exact ⟨hk, hh, hf⟩
  · exact ⟨hk, hh, hf⟩

theorem Evolves.insertResult {row : ResultRow} (h : s.insertResult row = .ok s') :
    Evolves s s' := by
  obtain ⟨hcl, hrows, _⟩ := insertResult_ok h
  refine ⟨?_, ?_, ?_⟩
  · intro client hc
    rw [Registered, hcl]
    exact hc
  · intro client hc
    rw [Retired, hcl]
    exact hc
  · intro key hash frame ⟨r, hr, hold⟩
    exact .inl ⟨r, by rw [hrows]; exact List.mem_cons_of_mem _ hr, hold⟩

/-- Retiring a client instance changes no result, and retires it. -/
theorem retireClient_ok {identityHash : Bytes} {id : ClientInstanceId}
    (h : s.retireClient identityHash id now = .ok s') :
    s'.results = s.results ∧ Evolves s s' ∧ Retired s' ⟨identityHash, id⟩ := by
  unfold ReplayStore.retireClient at h
  split at h
  · obtain ⟨hres, hrows, _⟩ := insertClient_ok h
    refine ⟨hres, Evolves.insertClient h, ⟨⟨identityHash, id, now, now, some now⟩, ?_, rfl, rfl⟩⟩
    rw [hrows]
    exact List.mem_cons_self
  · next c hc =>
    cases h
    obtain ⟨hmem, hk⟩ := Table.find?_eq_some.mp hc
    have hsome : ∀ o : Option Int, (o.orElse fun _ => some now).isSome = true := by
      intro o
      cases o <;> rfl
    refine ⟨rfl, Evolves.updateClients (fun c _ => hsome c.retiredAt), ?_⟩
    refine ⟨_, List.mem_map_of_mem hmem, ?_⟩
    rw [if_pos (beq_iff_eq.mpr hk)]
    exact ⟨hk, hsome c.retiredAt⟩

/-- A removal retires the client instance whose row it deletes. -/
theorem Evolves.retireAndDeleteOldest {selector : PruneSelector} {n : Nat}
    (h : retireAndDeleteOldest selector now s = .ok (n, s')) : Evolves s s' := by
  rcases retireAndDeleteOldest_cases h with ⟨_, _, rfl⟩ | ⟨r, s₁, _, hret, _, rfl⟩
  · exact Evolves.refl _
  · obtain ⟨_, hev, hretired⟩ := retireClient_ok hret
    refine hev.trans ⟨fun _ h => h, fun _ h => h, ?_⟩
    intro key hash frame ⟨q, hq, hk, hh, hf⟩
    by_cases hkey : q.key = r.key
    · refine .inr ?_
      rw [← hk, hkey]
      exact hretired
    · exact .inl ⟨q, Table.mem_deleteWhere.mpr ⟨hq, beq_eq_false_iff_ne.mpr hkey⟩, hk, hh, hf⟩

theorem Evolves.ensureClientInstance {b : Bool}
    (h : ensureClientInstance key now limits s = .ok (b, s')) : Evolves s s' := by
  rcases ensureClientInstance_cases h with ⟨c, _, _, rfl⟩ | ⟨_, _, _, _, hi⟩
  · exact Evolves.updateClients fun _ h => h
  · exact Evolves.insertClient hi

section
variable {rmpv : Rmpv} {key : DurableMutationKey} {hash : RequestHash} {now : Int}
  {limits : RetentionLimits} {build : Txn σ ServerError Bytes} {s s' : ReplayStore σ}
  {out : DurableReplayCommit}

theorem Evolves.admitDurableMutation
    (h : admitDurableMutation rmpv key hash now limits build s = .ok (out, s')) : Evolves s s' := by
  obtain ⟨_, _, s₁, c, _, hp, _, hend⟩ := admitDurableMutation_cases h
  obtain ⟨_, _, hprune⟩ := pruneForAdmission_rel (R := fun _ => Evolves) Evolves.refl
    (fun _ _ _ _ _ => Evolves.trans) (fun _ _ _ _ => Evolves.retireAndDeleteOldest) hp
  rcases hend with ⟨_, _, rfl⟩ | ⟨_, frame, rest, _, _, _, _, hi, _⟩
  · exact hprune
  · have hrest : Evolves s₁ { s₁ with rest } :=
      ⟨fun _ h => h, fun _ h => h, fun _ _ _ h => .inl h⟩
    exact hprune.trans (hrest.trans (Evolves.insertResult hi))

/-- A whole commit. -/
theorem Evolves.commit
    (h : commitDurableMutationResultWithLimits rmpv key hash now limits build s = .ok (out, s')) :
    Evolves s s' := by
  obtain ⟨_, _, b, s₁, he, hend⟩ := commit_cases h
  have hensure := Evolves.ensureClientInstance he
  rcases hend with ⟨_, _, rfl⟩ | ⟨_, _, _, _, _, rfl⟩ | ⟨_, _, _, _, _, rfl⟩ | ⟨_, _, hadmitted⟩
  · exact hensure
  · exact hensure
  · exact hensure.trans ((Evolves.touchResult key now s₁).trans (Evolves.updateClients fun _ h => h))
  · exact hensure.trans (Evolves.admitDurableMutation hadmitted)

end

/-! After a mutation has run. -/

/-- The mutation has run with this request and this result: the result is still there, or
the client instance is retired for good. -/
structure Executed (rmpv : Rmpv) (key : DurableMutationKey) (hash : RequestHash) (frame : Bytes)
    (s : ReplayStore σ) : Prop where
  validKey : validateKey key = .ok ()
  validFrame : validateResultFrame rmpv frame = .ok ()
  registered : Registered s key.client
  kept : Holds s key hash frame ∨ Retired s key.client

variable {frame : Bytes} {pruned : Nat}

section
variable {rmpv : Rmpv} {key : DurableMutationKey} {hash : RequestHash}

theorem Executed.evolves {s s' : ReplayStore σ} (h : Executed rmpv key hash frame s)
    (he : Evolves s s') : Executed rmpv key hash frame s' := by
  refine ⟨h.validKey, h.validFrame, he.registered _ h.registered, ?_⟩
  rcases h.kept with hk | hk
  · exact he.kept _ _ _ hk
  · exact .inr (he.retired _ hk)

section
variable {now : Int} {limits : RetentionLimits} {build : Txn σ ServerError Bytes}

/-- A commit that stored its result leaves the mutation executed. -/
theorem commit_stored {s s' : ReplayStore σ}
    (h : commitDurableMutationResultWithLimits rmpv key hash now limits build s =
      .ok (.stored frame pruned, s')) : Executed rmpv key hash frame s' := by
  obtain ⟨hk, _, b, s₁, _, hend⟩ := commit_cases h
  rcases hend with ⟨_, ho, _⟩ | ⟨_, _, _, _, ho, _⟩ | ⟨_, _, _, _, ho, _⟩ | ⟨_, _, hadmitted⟩
  · cases ho
  · cases ho
  · cases ho
  · obtain ⟨_, _, s₂, c, _, _, hc, hadmitted⟩ := admitDurableMutation_cases hadmitted
    rcases hadmitted with ⟨_, ho, _⟩ | ⟨_, frame', rest, retained, _, hv, _, hi, ho⟩
    · cases ho
    · obtain ⟨rfl, rfl⟩ := DurableReplayCommit.stored.inj ho
      obtain ⟨hcl, hrows, _⟩ := insertResult_ok hi
      obtain ⟨hmem, hkey⟩ := Table.find?_eq_some.mp hc
      refine ⟨hk, hv, ⟨c, by rw [hcl]; exact hmem, hkey⟩, .inl ?_⟩
      refine ⟨⟨key.identityHash, key.clientInstanceId, key.mutationId, hash, frame, retained, now,
        now⟩, ?_, rfl, rfl, rfl⟩
      rw [hrows]
      exact List.mem_cons_self

/-- A commit that was refused as expired leaves the client instance retired. -/
theorem commit_expired {s s' : ReplayStore σ}
    (h : commitDurableMutationResultWithLimits rmpv key hash now limits build s =
      .ok (.expired, s')) : Retired s' key.client := by
  obtain ⟨_, _, b, s₁, he, hend⟩ := commit_cases h
  rcases hend with ⟨hb, _, rfl⟩ | ⟨_, _, _, _, ho, _⟩ | ⟨_, _, _, _, ho, _⟩ | ⟨_, _, hadmitted⟩
  · rcases ensureClientInstance_cases he with ⟨c, hc, hret, rfl⟩ | ⟨_, hf, _⟩
    · -- the client instance was found retired, and touching it keeps it so
      obtain ⟨hmem, hkey⟩ := Table.find?_eq_some.mp hc
      have hold : Retired s key.client := ⟨c, hmem, hkey, by rw [← hret, hb]⟩
      exact (Evolves.ensureClientInstance he).retired _ hold
    · rw [hb] at hf
      cases hf
  · cases ho
  · cases ho
  · obtain ⟨_, _, s₂, c, _, _, hc, hadmitted⟩ := admitDurableMutation_cases hadmitted
    obtain ⟨hmem, hkey⟩ := Table.find?_eq_some.mp hc
    rcases hadmitted with ⟨hret, _, rfl⟩ | ⟨_, _, _, _, _, _, _, _, ho⟩
    · exact ⟨c, hmem, hkey, hret⟩
    · cases ho

/-- A retired client instance is refused. -/
theorem commit_retired {s : ReplayStore σ}
    (hk : validateKey key = .ok ()) (hl : validateLimits limits = .ok ())
    (hr : Retired s key.client) :
    commitDurableMutationResultWithLimits rmpv key hash now limits build s =
      .ok (.expired, touchClient key.client now s) := by
  obtain ⟨c, hmem, hkey, hret⟩ := hr
  have hc := Table.find?_eq_some.mpr ⟨hmem, hkey⟩
  have hensure : ensureClientInstance key now limits s = .ok (true, touchClient key.client now s) := by
    rw [ensureClientInstance, Txn.query_bind]
    simp only [hc, Txn.execute_bind, hret]
    rfl
  exact commit_of_ensure hk hl hensure

end

/-- In a state in which the mutation has run, a commit under its key answers from the row or
refuses: it never runs the mutation again. -/
theorem commit_executed {s : ReplayStore σ} (hx : Executed rmpv key hash frame s)
    {hash' : RequestHash} {now : Int} {limits : RetentionLimits} {build : Txn σ ServerError Bytes}
    (hl : validateLimits limits = .ok ()) :
    (∃ s', commitDurableMutationResultWithLimits rmpv key hash' now limits build s =
      .ok (.expired, s')) ∨
    (∃ s', commitDurableMutationResultWithLimits rmpv key hash' now limits build s =
      .ok (if hash' = hash then .replayed frame else .conflict, s')) := by
  by_cases hret : Retired s key.client
  · exact .inl ⟨_, commit_retired hx.validKey hl hret⟩
  · obtain ⟨r, hr, hkey, hhash, hframe⟩ := hx.kept.resolve_right hret
    obtain ⟨c, hmem, hck⟩ := hx.registered
    have hc := Table.find?_eq_some.mpr ⟨hmem, hck⟩
    have hfalse : c.retiredAt.isSome = false := by
      by_contra h
      exact hret ⟨c, hmem, hck, Bool.eq_true_of_not_eq_false h⟩
    have hensure : ensureClientInstance key now limits s =
        .ok (false, touchClient key.client now s) := by
      rw [ensureClientInstance, Txn.query_bind]
      simp only [hc, Txn.execute_bind, hfalse]
      rfl
    have hfind : (touchClient key.client now s).results.find? key = some r :=
      Table.find?_eq_some.mpr ⟨hr, hkey⟩
    refine .inr ?_
    rw [commit_of_ensure hx.validKey hl hensure]
    simp only [Bool.false_eq_true, if_false, replayOrAdmit, Txn.query_bind, hfind]
    by_cases hh : hash' = hash
    · rw [if_neg (not_not.mpr (hhash.trans hh.symm)), hframe, hx.validFrame, if_pos hh]
      exact ⟨_, rfl⟩
    · rw [if_pos (fun h => hh (h.symm.trans hhash)), if_neg hh]
      exact ⟨_, rfl⟩

end

/-! Runs. -/

/-- The arguments of one call. -/
structure DurableCall (σ : Type) where
  key : DurableMutationKey
  requestHash : RequestHash
  now : Int
  limits : RetentionLimits
  buildResult : Txn σ ServerError Bytes

/-- A call; a call in which the database fails, at any point; a restart of the process. -/
inductive ReplayInput (σ : Type) where
  | call (call : DurableCall σ)
  | fault (call : DurableCall σ) (error : ServerError)
  | restart

/-- What a call returned; nothing for a restart. -/
abbrev ReplayOutcome := Option (Except ServerError DurableReplayCommit)

def DurableCall.body (rmpv : Rmpv) (c : DurableCall σ) :
    Txn (ReplayStore σ) ServerError DurableReplayCommit :=
  commitDurableMutationResultWithLimits rmpv c.key c.requestHash c.now c.limits c.buildResult

/-- The transaction of a failed call is rolled back, and a restart keeps the tables. -/
def replayStep (rmpv : Rmpv) (s : ReplayStore σ) : ReplayInput σ → ReplayOutcome × ReplayStore σ
  | .call c =>
    let result := Txn.atomically (c.body rmpv) s
    (some result.1, result.2)
  | .fault _ error => (some (.error error), s)
  | .restart => (none, s)

/-- The callback of a call under `key` was run to commit. -/
def ranToCommit (key : DurableMutationKey) : ReplayInput σ × ReplayOutcome → Bool
  | (.call c, some (.ok (.stored _ _))) => c.key == key
  | _ => false

theorem ranToCommit_true {e : ReplayInput σ × ReplayOutcome} (h : ranToCommit key e = true) :
    ∃ c frame pruned, e = (.call c, some (.ok (.stored frame pruned))) ∧ c.key = key := by
  unfold ranToCommit at h
  split at h
  · exact ⟨_, _, _, rfl, beq_iff_eq.mp h⟩
  · cases h

theorem replayStep_call (h : (replayStep rmpv s (.call c)).1 = some (.ok out)) :
    c.body rmpv s = .ok (out, (replayStep rmpv s (.call c)).2) :=
  Txn.atomically_ok.mp (Option.some.inj h)

/-- Every step moves the tables as a commit does, or not at all. -/
theorem replayStep_evolves (rmpv : Rmpv) (s : ReplayStore σ) (i : ReplayInput σ) :
    Evolves s (replayStep rmpv s i).2 := by
  cases i with
  | call c =>
    exact Txn.atomically_preserves (I := Evolves s) (fun _ _ => Evolves.commit) (Evolves.refl s)
  | fault | restart => exact Evolves.refl s

/-- A call whose limits are refused. -/
theorem replayStep_invalid (hl : validateLimits c.limits ≠ .ok ()) :
    ∃ error, (replayStep rmpv s (.call c)).1 = some (.error error) := by
  cases hb : (Txn.atomically (c.body rmpv) s).1 with
  | error e => exact ⟨e, by rw [← hb]; rfl⟩
  | ok out => exact absurd (commit_cases (Txn.atomically_ok.mp hb)).2.1 hl

/-- The answer to a later call under the key of a mutation that has run. -/
def Answers (hash : RequestHash) (frame : Bytes) (c : DurableCall σ) (o : ReplayOutcome) : Prop :=
  (validateLimits c.limits = .ok () → o = some (.ok .expired) ∨
    o = some (.ok (if c.requestHash = hash then .replayed frame else .conflict))) ∧
  (validateLimits c.limits ≠ .ok () → ∃ error, o = some (.error error))

variable {c : DurableCall σ}

theorem replayStep_answers {rmpv : Rmpv} {hash : RequestHash} {s : ReplayStore σ}
    (h : Executed rmpv c.key hash frame s) :
    Answers hash frame c (replayStep rmpv s (.call c)).1 := by
  refine ⟨?_, replayStep_invalid⟩
  intro hl
  have hrun : ∀ out s', c.body rmpv s = .ok (out, s') →
      (replayStep rmpv s (.call c)).1 = some (.ok out) := by
    intro out s' hb
    simp only [replayStep, Txn.atomically, hb]
  rcases commit_executed h hl with ⟨s', hb⟩ | ⟨s', hb⟩
  · exact .inl (hrun _ _ hb)
  · exact .inr (hrun _ _ hb)

/-- At-most-once execution, read off the history of a run. -/
structure AtMostOnce (history : List (ReplayInput σ × ReplayOutcome)) : Prop where
  /-- No callback is run to commit twice under one key. -/
  once : ∀ key, history.countP (ranToCommit key) ≤ 1
  /-- A later call under the key answers from the stored result, finds a conflict, or is
  refused; it fails only when its limits are invalid. -/
  answered : ∀ pre post c frame pruned,
    history = pre ++ (.call c, some (.ok (.stored frame pruned))) :: post →
    ∀ later o, (.call later, o) ∈ post → later.key = c.key → Answers c.requestHash frame later o
  /-- A client instance once refused as expired never stores again. -/
  expired : ∀ pre post c, history = pre ++ (.call c, some (.ok .expired)) :: post →
    ∀ later frame pruned, (.call later, some (.ok (.stored frame pruned))) ∈ post →
      later.key.client ≠ c.key.client

theorem answers_not_stored {hash : RequestHash} {o : ReplayOutcome} (h : Answers hash frame c o)
    (frame' : Bytes) (pruned : Nat) : o ≠ some (.ok (.stored frame' pruned)) := by
  intro ho
  by_cases hl : validateLimits c.limits = .ok ()
  · rcases h.1 hl with he | he
    · rw [ho] at he
      cases he
    · rw [ho] at he
      split at he <;> cases he
  · obtain ⟨e, he⟩ := h.2 hl
    rw [ho] at he
    cases he

theorem run_answered {is : List (ReplayInput σ)} {pre post : List (ReplayInput σ × ReplayOutcome)}
    (h : (Machine.run (replayStep rmpv) s is).1 =
      pre ++ (.call c, some (.ok (.stored frame pruned))) :: post) :
    ∀ later o, (.call later, o) ∈ post → later.key = c.key → Answers c.requestHash frame later o := by
  intro later o hmem hkey
  have hlater := Machine.run_later (Q := Executed rmpv c.key c.requestHash frame)
    (R := fun i o => ∀ d : DurableCall σ, i = .call d → d.key = c.key →
      Answers c.requestHash frame d o)
    (fun s i hs => hs.evolves (replayStep_evolves rmpv s i))
    (fun s i hs d hi hd => by subst hi; exact replayStep_answers (hd ▸ hs))
    (fun s ho => commit_stored (replayStep_call ho)) h
  exact hlater _ hmem later rfl hkey

/-- Durable mutations are executed at most once, in every run from any state of the tables. -/
theorem durable_atMostOnce (rmpv : Rmpv) (s : ReplayStore σ) (is : List (ReplayInput σ)) :
    AtMostOnce (Machine.run (replayStep rmpv) s is).1 := by
  refine ⟨?_, ?_, ?_⟩
  · intro key
    apply Machine.countP_le_one
    intro pre x post hsplit hx y hy
    by_contra hcontra
    -- both entries are calls under the key that stored a result
    obtain ⟨c, frame, pruned, rfl, hc⟩ := ranToCommit_true hx
    obtain ⟨d, frame', pruned', rfl, hd⟩ := ranToCommit_true (Bool.eq_true_of_not_eq_false hcontra)
    have hanswer := run_answered hsplit d _ hy (hd.trans hc.symm)
    exact answers_not_stored hanswer frame' pruned' rfl
  · intro pre post c frame pruned hsplit
    exact run_answered hsplit
  · intro pre post c hsplit later frame pruned hmem hkey
    have hlater := Machine.run_later (Q := fun s => Retired s c.key.client)
      (R := fun i o => ∀ d : DurableCall σ, i = .call d → d.key.client = c.key.client →
        ∀ frame pruned, o ≠ some (.ok (.stored frame pruned)))
      (fun s i hs => (replayStep_evolves rmpv s i).retired _ hs)
      (fun s i hs d hi hd frame pruned ho => by
        subst hi
        have hb := replayStep_call ho
        obtain ⟨hk, hl, _⟩ := commit_cases hb
        rw [DurableCall.body, commit_retired hk hl (hd ▸ hs)] at hb
        cases hb)
      (fun s ho => commit_expired (replayStep_call ho)) hsplit
    exact hlater _ hmem later rfl hkey frame pruned rfl

end Omen.Server
