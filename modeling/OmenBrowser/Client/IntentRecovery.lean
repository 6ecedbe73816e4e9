import OmenBrowser.Client.IntentJournal

/- What a recovery returns, whatever the table of intents holds (`recover_nonterminal`).

   The rows under way are loaded one after another and the first that does not load ends the
   recovery: it is all of them or none (`recovery_all_or_none`). -/
namespace Omen.Client
open Wire Sql Machine Omen.Protocol
open Omen.Server (Rmpv)

variable {rmpv : Rmpv} {sha256 : Bytes → RequestHash} {s : IntentStore}
  {intents : List OutboundMutationIntent} {intent : OutboundMutationIntent}
  {request : PrepareOutboundMutation} {id : MutationId}

/-- A recovery that ends well was within its bounds and has loaded each row under way. -/
theorem recoverable_of_ok (h : recoverNonterminal rmpv sha256 s = .ok intents) :
    s.Recoverable rmpv sha256 := by
  unfold recoverNonterminal at h
  simp only [↓Outcome.check_ok, Outcome.refuse_ok, Outcome.bind_ok] at h
  obtain ⟨retainedBytes, hsum, hbounds, _, hloads⟩ := h
  obtain ⟨rfl, _⟩ := retainedSum_ok.mp hsum
  rw [not_or, Int.not_lt, Int.not_lt] at hbounds
  refine ⟨fun row hrow hnonterminal => ?_, hbounds.1, hbounds.2⟩
  have hbatch : row ∈ s.intents.batch byCreation IntentRow.nonterminal
      (maxOutboundMutationIntents + 1).toNat := by
    have hall : s.intents.batch byCreation IntentRow.nonterminal
        (maxOutboundMutationIntents + 1).toNat = s.underWay := by
      apply List.take_of_length_le
      rw [(perm_orderBy byCreation _).length_eq]
      omega
    rw [hall]
    exact mem_underWay.mpr ⟨hrow, hnonterminal⟩
  obtain ⟨intent, hintent⟩ := Outcome.exists_mapM_ok.mp ⟨_, hloads⟩ _ (List.mem_map_of_mem hbatch)
  obtain ⟨q, hq, hkey, hload⟩ := loadIntent_row (recoverIntent_ok.mp hintent)
  exact ⟨intent, Table.eq_of_key hq hrow hkey ▸ hload⟩

/-- A persisted request is under way. -/
theorem persisted_underWay
    (h : (persistPreparedWithId rmpv sha256 request id productionIntentLimits s).1 = .ok intent) :
    intent.mutationId = id ∧ intent.state.isTerminal = false := by
  rcases persistPreparedWithId_cases rmpv sha256 request id productionIntentLimits s with
    ⟨e, he⟩ | ⟨row, intent', t, hprepare, _, hpersist, _⟩
  · rw [he] at h
    cases h
  rw [hpersist] at h
  cases h
  obtain ⟨_, _, _, _, _, _, hprepared, _⟩ := prepareIntentRow_ok hprepare
  rw [hprepared]
  exact ⟨rfl, rfl⟩

/-- A recovery returns all intents under way, and exactly if they are within its bounds and each of
their rows loads. A request that the codec reads back loads once it is persisted, and is among what
a recovery returns. -/
theorem recovery_all_or_none (rmpv : Rmpv) (sha256 : Bytes → RequestHash) (s : IntentStore) :
    ((∃ intents, recoverNonterminal rmpv sha256 s = .ok intents) ↔ s.Recoverable rmpv sha256) ∧
    (∀ intents, recoverNonterminal rmpv sha256 s = .ok intents →
      Recovers rmpv sha256 s intents) ∧
    ∀ request id intent, request.Readable rmpv →
      (persistPreparedWithId rmpv sha256 request id productionIntentLimits s).1 = .ok intent →
      let s' := (persistPreparedWithId rmpv sha256 request id productionIntentLimits s).2
      loadIntent rmpv sha256 s' id = .ok (some intent) ∧
        ∀ intents, recoverNonterminal rmpv sha256 s' = .ok intents → intent ∈ intents := by
  have hrecovers : ∀ (s : IntentStore) intents, recoverNonterminal rmpv sha256 s = .ok intents →
      Recovers rmpv sha256 s intents := by
    intro s intents h
    obtain ⟨intents', h', hrecovers⟩ := recoverNonterminal_recovers (recoverable_of_ok h)
    exact Except.ok.inj (h'.symm.trans h) ▸ hrecovers
  refine ⟨⟨fun ⟨intents, h⟩ => recoverable_of_ok h, fun h => ?_⟩, hrecovers s, ?_⟩
  · obtain ⟨intents, hok, _⟩ := recoverNonterminal_recovers h
    exact ⟨intents, hok⟩
  · intro request id intent hreadable hpersist
    have hload := (persisted_loads_iff hpersist).mpr hreadable
    obtain ⟨hid, hstate⟩ := persisted_underWay hpersist
    exact ⟨hload, fun intents h => ((hrecovers _ _ h).2 intent).mpr ⟨hstate, hid.symm ▸ hload⟩⟩

/-- A command is persisted, loads, and is recovered. -/
theorem recovery_all_or_none_command :
    let s' := (persistPreparedWithId Rmpv.reference (fun _ => zeroHash) (commandIntent .empty)
      firstMutation productionIntentLimits .default).2
    ∃ intent, loadIntent Rmpv.reference (fun _ => zeroHash) s' firstMutation = .ok (some intent) ∧
      ∃ intents, recoverNonterminal Rmpv.reference (fun _ => zeroHash) s' = .ok intents ∧
        intent ∈ intents := by
  have hpersisted : (persistPreparedWithId Rmpv.reference (fun _ => zeroHash) (commandIntent .empty)
      firstMutation productionIntentLimits .default).1.isOk = true := by decide +kernel
  have hrecovered : (recoverNonterminal Rmpv.reference (fun _ => zeroHash)
      (persistPreparedWithId Rmpv.reference (fun _ => zeroHash) (commandIntent .empty)
        firstMutation productionIntentLimits .default).2).isOk = true := by decide +kernel
  obtain ⟨intent, hintent⟩ := Outcome.isOk_iff.mp hpersisted
  obtain ⟨intents, hintents⟩ := Outcome.isOk_iff.mp hrecovered
  obtain ⟨hload, hmem⟩ := (recovery_all_or_none Rmpv.reference (fun _ => zeroHash) .default).2.2
    (commandIntent .empty) firstMutation intent emptyCommand_readable hintent
  exact ⟨intent, hload, intents, hintents, hmem intents hintents⟩

/-! Two intents under way, one of which is damaged. -/

def secondMutation : MutationId := ⟨List.replicate 16 4, by decide⟩

def damagedJournal : IntentStore :=
  let s := (run (journalStep Rmpv.reference (fun _ => zeroHash)) .default
    [(.persist (commandIntent .empty) firstMutation, none),
      (.persist (commandIntent .empty) secondMutation, none)]).2
  { s with
    intents := s.intents.updateWhere (fun row => row.mutationId == firstMutation)
      (fun row => { row with requestHash := List.replicate 32 9 }) (fun _ => rfl) }

/-- The second intent loads, and is not recovered. -/
theorem damaged_intent_strands :
    (loadIntent Rmpv.reference (fun _ => zeroHash) damagedJournal secondMutation).toOption.join.isSome =
      true ∧
    (recoverNonterminal Rmpv.reference (fun _ => zeroHash) damagedJournal).isOk = false :=
  ⟨by decide +kernel, by decide +kernel⟩

end Omen.Client
