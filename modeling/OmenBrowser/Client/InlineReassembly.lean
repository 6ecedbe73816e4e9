import OmenBrowser.Client.InlineDownloads

/- What the client makes of a file's chunks.

   A chunk changes the download of its own resource and no other. Whatever chunks come, a resource
   that is handed out agrees with every chunk that was taken for it (`Faithful`); and the chunks of
   one file, in any order, are put together to the file (`Downloading`). -/
namespace Omen.Client
open Wire Sql Reassembly Omen.Protocol Machine List Server

/-! Downloads by their ids. -/

namespace LiveDownloads
variable {s : LiveDownloads} {resourceId other : String}

theorem find?_remove_self : (s.remove resourceId).find? resourceId = none := by
  have hnone : (s.remove resourceId).pendingUploadDownloads.find? resourceId = none := by
    rw [Table.find?_eq_none]
    intro row hrow hkey
    have hno := (Table.mem_deleteWhere.mp hrow).2
    simp [hkey] at hno
  rw [find?, hnone, Option.map_none]

theorem find?_remove_of_ne (h : other ≠ resourceId) :
    (s.remove resourceId).find? other = s.find? other := by
  unfold find? remove
  rw [Table.find?_deleteWhere]
  intro row hrow
  simpa [hrow] using h

theorem find?_put (download : PendingDownload) :
    (s.put resourceId download).find? other =
      if other = resourceId then some download else s.find? other := by
  unfold put find?
  simp only [Table.find?_insertOrIgnore]
  by_cases h : other = resourceId
  · subst h
    have hnone : (s.remove other).pendingUploadDownloads.find? other = none := by
      have hremoved : (s.remove other).find? other = none := find?_remove_self
      exact Option.map_eq_none_iff.mp hremoved
    simp [hnone]
  · have hsame := find?_remove_of_ne (s := s) h
    unfold find? at hsame
    rw [if_neg (Ne.symm h), if_neg h, hsame]

end LiveDownloads

/-- Events that say that a chunk was taken. -/
def DownloadEvent.isProgress : DownloadEvent → Bool
  | .uploadResourceProgress _ _ _ _ _ => true
  | _ => false

variable (id : String)

/-- Events that hand a resource out. -/
def DownloadEvent.handsOut : DownloadEvent → Bool
  | .uploadResourceAvailable _ other _ _ _ => other == id
  | _ => false

variable {humanBytes : Nat → String} {s : LiveDownloads} {sessionId : ChatSessionId}
  {c : InlineChunk} {entry entry' : PendingDownload}

theorem find?_rejectInlineDownload {resourceId : String} {message : String} {b : Bool}
    {other : String} (h : other ≠ resourceId) :
    (s.rejectInlineDownload sessionId resourceId message b).2.find? other = s.find? other := by
  cases b with
  | false => rfl
  | true => exact LiveDownloads.find?_remove_of_ne h

/-- What a merged chunk leads to. -/
theorem finishChunk_cases (humanBytes : Nat → String) (s : LiveDownloads)
    (sessionId : ChatSessionId) (c : InlineChunk) (entry : PendingDownload) :
    (entry.bytes.length < entry.totalLen ∧
      (finishChunk humanBytes s sessionId c entry).1 = [.uploadResourceProgress sessionId
        c.resourceId c.filename entry.bytes.length entry.totalLen] ∧
      ∀ id, (finishChunk humanBytes s sessionId c entry).2.find? id =
        if id = c.resourceId then some entry else s.find? id) ∨
    (entry.totalLen ≤ entry.bytes.length ∧
      (∃ e, (finishChunk humanBytes s sessionId c entry).1 = [.uploadResourceProgress sessionId
        c.resourceId c.filename entry.bytes.length entry.totalLen, e] ∧
        (entry.bytes.length = entry.totalLen → e = .uploadResourceAvailable sessionId c.resourceId
          entry.filename entry.contentType entry.bytes) ∧
        (entry.bytes.length ≠ entry.totalLen → ∃ message, e = .error sessionId message)) ∧
      ∀ id, (finishChunk humanBytes s sessionId c entry).2.find? id =
        if id = c.resourceId then none else s.find? id) := by
  have hgone : ∀ id, ((s.put c.resourceId entry).remove c.resourceId).find? id =
      if id = c.resourceId then none else s.find? id := by
    intro id
    by_cases h : id = c.resourceId
    · rw [if_pos h, h, LiveDownloads.find?_remove_self]
    · rw [LiveDownloads.find?_remove_of_ne h, LiveDownloads.find?_put, if_neg h, if_neg h]
  unfold finishChunk
  by_cases hdone : entry.totalLen ≤ entry.bytes.length
  · refine .inr ⟨hdone, ?_⟩
    rw [if_pos ⟨.inr hdone, hdone⟩]
    by_cases hlen : entry.bytes.length = entry.totalLen
    · rw [if_neg (not_not.mpr hlen)]
      exact ⟨⟨_, rfl, fun _ => rfl, fun hne => absurd hlen hne⟩, hgone⟩
    · rw [if_pos hlen]
      exact ⟨⟨_, rfl, fun heq => absurd heq hlen, fun _ => ⟨_, rfl⟩⟩, hgone⟩
  · refine .inl ⟨Nat.lt_of_not_le hdone, ?_⟩
    rw [if_neg fun h => hdone h.2]
    exact ⟨rfl, fun id => LiveDownloads.find?_put entry⟩

/-- A merged chunk is reported; its download is kept or gone, and others are as they were; and only
    a download that is full is handed out. -/
theorem finishChunk_spec (humanBytes : Nat → String) (s : LiveDownloads)
    (sessionId : ChatSessionId) (c : InlineChunk) (entry : PendingDownload) :
    (finishChunk humanBytes s sessionId c entry).1.any DownloadEvent.isProgress = true ∧
      (∀ id found, (finishChunk humanBytes s sessionId c entry).2.find? id = some found →
        id = c.resourceId ∧ found = entry ∨ id ≠ c.resourceId ∧ s.find? id = some found) ∧
      ∀ sid id filename contentType bytes,
        .uploadResourceAvailable sid id filename contentType bytes ∈
          (finishChunk humanBytes s sessionId c entry).1 →
        id = c.resourceId ∧ bytes = entry.bytes ∧ entry.totalLen ≤ entry.bytes.length := by
  rcases finishChunk_cases humanBytes s sessionId c entry with
    ⟨-, hevents, hfinds⟩ | ⟨hfull, ⟨e, hevents, havailable, hfailed⟩, hfinds⟩
  all_goals
    rw [hevents]
    refine ⟨rfl, ?_, ?_⟩
  · intro id found hfind
    rw [hfinds] at hfind
    by_cases hid : id = c.resourceId
    · rw [if_pos hid] at hfind
      exact .inl ⟨hid, (Option.some.inj hfind).symm⟩
    · rw [if_neg hid] at hfind
      exact .inr ⟨hid, hfind⟩
  · intro sid id filename contentType bytes hmem
    cases mem_singleton.mp hmem
  · intro id found hfind
    rw [hfinds] at hfind
    by_cases hid : id = c.resourceId
    · rw [if_pos hid] at hfind
      cases hfind
    · rw [if_neg hid] at hfind
      exact .inr ⟨hid, hfind⟩
  · intro sid id filename contentType bytes hmem
    have he : DownloadEvent.uploadResourceAvailable sid id filename contentType bytes = e := by
      simpa using hmem
    by_cases hlen : entry.bytes.length = entry.totalLen
    · obtain ⟨-, rfl, -, -, rfl⟩ :=
        DownloadEvent.uploadResourceAvailable.inj (he.trans (havailable hlen))
      exact ⟨rfl, rfl, hfull⟩
    · obtain ⟨message, hmessage⟩ := hfailed hlen
      cases he.trans hmessage

/-- Opening a download finds the one that is there, or makes one with nothing in it. -/
theorem openDownload_ok (h : openDownload s sessionId c = .ok entry) :
    (s.find? c.resourceId = some entry ∨
      s.find? c.resourceId = none ∧ entry.toAssembly = Assembly.empty) ∧
      entry.sessionId = sessionId ∧ entry.filename = c.filename ∧
      entry.contentType = c.contentType ∧ entry.totalLen = c.totalLen := by
  unfold openDownload at h
  split at h
  · cases h
  · split at h
    · next existing hfind =>
      split at h
      · cases h
      · next hsession =>
        split at h
        · cases h
        · next hmeta =>
          cases h
          simp only [not_or, not_not] at hsession hmeta
          exact ⟨.inl hfind, hsession, hmeta⟩
    · next hfind =>
      split at h
      · cases h
      · cases h
        exact ⟨.inr ⟨hfind, rfl⟩, rfl, rfl, rfl, rfl⟩

/-- Two downloads that differ in their bytes alone. -/
def SameFile (entry entry' : PendingDownload) : Prop :=
  entry'.sessionId = entry.sessionId ∧ entry'.filename = entry.filename ∧
    entry'.contentType = entry.contentType ∧ entry'.totalLen = entry.totalLen

@[simp] theorem toAssembly_mark (done : Bool) :
    (entry.mark done).toAssembly = entry.toAssembly := by
  unfold PendingDownload.mark
  split <;> rfl

theorem sameFile_mark (entry : PendingDownload) (done : Bool) : SameFile entry (entry.mark done) := by
  unfold PendingDownload.mark
  split <;> exact ⟨rfl, rfl, rfl, rfl⟩

/-- A chunk that is merged is there, and what was there is. -/
theorem mergeChunk_ok (h : mergeChunk entry c = .ok entry') :
    SameFile entry entry' ∧
      (∀ part, entry.toAssembly.Agrees part → entry'.toAssembly.Agrees part) ∧
      entry'.toAssembly.Agrees (c.offset, c.chunk) ∧
      (entry.toAssembly.retained ≤ entry.totalLen →
        entry'.toAssembly.retained ≤ entry.totalLen) := by
  -- the flag that was set matters to none of this
  obtain ⟨marked, hmarked, hassembly, hsame⟩ : ∃ marked : PendingDownload,
      marked = entry.mark c.done ∧ marked.toAssembly = entry.toAssembly ∧ SameFile entry marked :=
    ⟨_, rfl, toAssembly_mark _, sameFile_mark _ _⟩
  unfold mergeChunk at h
  simp only [← hmarked] at h
  have hdrain : ∀ part, marked.toAssembly.Agrees part →
      marked.drain.toAssembly.Agrees part := fun part => Assembly.agrees_absorb _
  split at h
  · cases h
  · split at h
    · split at h
      · next hplaced =>
        cases h
        refine ⟨hsame, ?_, hdrain _ (.inl hplaced), ?_⟩
        · intro part hpart
          exact hdrain part (hassembly ▸ hpart)
        · intro hle
          rw [← hassembly] at hle
          exact (Assembly.retained_absorb _ _).le.trans hle
      · cases h
    · split at h
      · next existing hfind =>
        split at h
        · cases h
        · next hequal =>
          cases h
          obtain ⟨hmem, hkey⟩ := Table.find?_eq_some.mp hfind
          have hpart : (c.offset, c.chunk) = existing :=
            Prod.ext hkey.symm (not_not.mp hequal).symm
          refine ⟨hsame, ?_, hdrain _ (.inr (hpart ▸ hmem)), ?_⟩
          · intro part hpart
            exact hdrain part (hassembly ▸ hpart)
          · intro hle
            rw [← hassembly] at hle
            exact (Assembly.retained_absorb _ _).le.trans hle
      · next hfree =>
        split at h
        · cases h
        · split at h
          · cases h
          · next hroom =>
            cases h
            obtain ⟨hretained, hrows⟩ := @Assembly.retained_wait _ _ _ c.chunk hfree
            refine ⟨hsame, ?_, ?_, ?_⟩
            · intro part hpart
              apply Assembly.agrees_absorb
              rw [← hassembly] at hpart
              rcases hpart with hplaced | hwaits
              · exact .inl hplaced
              · exact .inr (hrows ▸ mem_cons_of_mem _ hwaits)
            · exact Assembly.agrees_absorb _ (.inr (hrows ▸ mem_cons_self))
            · intro _
              have hle := Nat.le_of_not_lt hroom
              rw [hsame.2.2.2] at hle
              exact ((Assembly.retained_absorb _ _).trans hretained).le.trans hle

/-! Whatever chunks come. -/

/-- The downloads, and the chunks that were taken for each of those that are open. -/
structure Journal where
  state : LiveDownloads
  taken : String → List (Nat × Bytes)

/-- The chunk a frame carries. -/
def chunkOf (frame : Frame) : Option InlineChunk := (bodyValues frame.body).bind parseInlineChunk

/-- What an arrival adds to the chunks taken for a resource. -/
def takenPart (arrival : ChatSessionId × Frame) (events : List DownloadEvent) (id : String) :
    List (Nat × Bytes) :=
  match chunkOf arrival.2 with
  | none => []
  | some c =>
    if c.resourceId = id ∧ events.any DownloadEvent.isProgress then [(c.offset, c.chunk)] else []

def Journal.step (humanBytes : Nat → String) (j : Journal) (arrival : ChatSessionId × Frame) :
    List DownloadEvent × Journal :=
  let r := applyUploadInlineChunk humanBytes j.state arrival
  (r.1,
    { state := r.2
      taken := fun id =>
        if (r.2.find? id).isSome then j.taken id ++ takenPart arrival r.1 id else [] })

/-- Chunks that were taken for a download are in it, and it holds no more than it may. -/
structure Faithful (j : Journal) : Prop where
  agrees : ∀ id entry, j.state.find? id = some entry →
    ∀ part ∈ j.taken id, entry.toAssembly.Agrees part
  bounded : ∀ id entry, j.state.find? id = some entry →
    entry.toAssembly.retained ≤ entry.totalLen
  none : ∀ id, j.state.find? id = none → j.taken id = []

/-- What a step hands out agrees with the chunks taken for it. -/
def Exact (j : Journal) (arrival : ChatSessionId × Frame) (events : List DownloadEvent) : Prop :=
  ∀ sessionId id filename contentType bytes,
    .uploadResourceAvailable sessionId id filename contentType bytes ∈ events →
    ∀ part ∈ j.taken id ++ takenPart arrival events id,
      (bytes.drop part.1).take part.2.length = part.2

theorem rejectInlineDownload_spec (s : LiveDownloads) (sessionId : ChatSessionId) (id : String)
    (message : String) (b : Bool) :
    (∃ text, (s.rejectInlineDownload sessionId id message b).1 = [.error sessionId text]) ∧
      ((s.rejectInlineDownload sessionId id message b).2.find? id = none ∨
        (s.rejectInlineDownload sessionId id message b).2.find? id = s.find? id) ∧
      ∀ other, other ≠ id →
        (s.rejectInlineDownload sessionId id message b).2.find? other = s.find? other := by
  refine ⟨⟨_, rfl⟩, ?_, fun other h => find?_rejectInlineDownload h⟩
  cases b with
  | false => exact .inr rfl
  | true => exact .inl (LiveDownloads.find?_remove_self)

/-- A chunk is refused, or merged into its download. -/
theorem takeChunk_cases (humanBytes : Nat → String) (s : LiveDownloads) (sessionId : ChatSessionId)
    (c : InlineChunk) :
    ((∃ text, (takeChunk humanBytes s sessionId c).1 = [.error sessionId text]) ∧
      ((takeChunk humanBytes s sessionId c).2.find? c.resourceId = none ∨
        (takeChunk humanBytes s sessionId c).2.find? c.resourceId = s.find? c.resourceId) ∧
      ∀ other, other ≠ c.resourceId →
        (takeChunk humanBytes s sessionId c).2.find? other = s.find? other) ∨
    ∃ entry entry', openDownload s sessionId c = .ok entry ∧ mergeChunk entry c = .ok entry' ∧
      takeChunk humanBytes s sessionId c = finishChunk humanBytes s sessionId c entry' := by
  unfold takeChunk
  cases hopen : openDownload s sessionId c with
  | error e => exact .inl (rejectInlineDownload_spec s sessionId c.resourceId e.1 e.2)
  | ok entry =>
    cases hmerge : mergeChunk entry c with
    | error message =>
      simp only [hmerge]
      exact .inl (rejectInlineDownload_spec s sessionId c.resourceId message true)
    | ok entry' =>
      refine .inr ⟨entry, entry', rfl, hmerge, ?_⟩
      simp only [hmerge]

variable {arrival : ChatSessionId × Frame} {j : Journal} {seq roomId : UInt32} {k : Nat}
  {arrivals : List (ChatSessionId × Frame)}

/-- A frame without a chunk changes nothing. -/
theorem applyUploadInlineChunk_none (humanBytes : Nat → String) (h : chunkOf arrival.2 = none)
    (s : LiveDownloads) :
    ((applyUploadInlineChunk humanBytes s arrival).1 = [] ∨
      ∃ text, (applyUploadInlineChunk humanBytes s arrival).1 = [.error arrival.1 text]) ∧
      (applyUploadInlineChunk humanBytes s arrival).2 = s := by
  unfold applyUploadInlineChunk
  unfold chunkOf at h
  cases hbody : bodyValues arrival.2.body with
  | none => exact ⟨.inr ⟨_, rfl⟩, rfl⟩
  | some values =>
    rw [hbody, Option.bind_some] at h
    simp [h]

theorem applyUploadInlineChunk_some (humanBytes : Nat → String) {c : InlineChunk}
    (h : chunkOf arrival.2 = some c) (s : LiveDownloads) :
    applyUploadInlineChunk humanBytes s arrival = takeChunk humanBytes s arrival.1 c := by
  obtain ⟨values, hbody, hparse⟩ := Option.bind_eq_some_iff.mp h
  unfold applyUploadInlineChunk
  rw [hbody]
  simp only [hparse]

theorem Journal.step_taken (j : Journal) (arrival : ChatSessionId × Frame) (id : String) :
    (j.step humanBytes arrival).2.taken id =
      if ((applyUploadInlineChunk humanBytes j.state arrival).2.find? id).isSome then
        j.taken id ++ takenPart arrival (applyUploadInlineChunk humanBytes j.state arrival).1 id
      else [] := rfl

/-- A step that takes nothing. -/
theorem Faithful.idle (h : Faithful j) (hkeep : ∀ id entry,
      (applyUploadInlineChunk humanBytes j.state arrival).2.find? id = some entry →
      j.state.find? id = some entry)
    (hquiet : ∀ event ∈ (applyUploadInlineChunk humanBytes j.state arrival).1,
      ∃ text, event = .error arrival.1 text) :
    Faithful (j.step humanBytes arrival).2 ∧ Exact j arrival (j.step humanBytes arrival).1 := by
  have hpart : ∀ id,
      takenPart arrival (applyUploadInlineChunk humanBytes j.state arrival).1 id = [] := by
    intro id
    unfold takenPart
    split
    · rfl
    · rw [if_neg]
      intro ⟨_, hprogress⟩
      obtain ⟨event, hevent, hno⟩ := any_eq_true.mp hprogress
      obtain ⟨text, rfl⟩ := hquiet event hevent
      cases hno
  refine ⟨⟨?_, ?_, ?_⟩, ?_⟩
  · intro id entry hfind part hmem
    rw [Journal.step_taken, hpart, append_nil] at hmem
    split at hmem
    · exact h.agrees id entry (hkeep id entry hfind) part hmem
    · cases hmem
  · intro id entry hfind
    exact h.bounded id entry (hkeep id entry hfind)
  · intro id hfind
    have hno : (applyUploadInlineChunk humanBytes j.state arrival).2.find? id = Option.none := hfind
    rw [Journal.step_taken, hno]
    rfl
  · intro sessionId id filename contentType bytes hevent
    obtain ⟨text, htext⟩ := hquiet _ hevent
    cases htext

/-- A step that takes a chunk. -/
theorem Faithful.taken (h : Faithful j) {c : InlineChunk} (hchunk : chunkOf arrival.2 = some c)
    (hopen : openDownload j.state arrival.1 c = .ok entry)
    (hmerge : mergeChunk entry c = .ok entry')
    (happly : applyUploadInlineChunk humanBytes j.state arrival =
      finishChunk humanBytes j.state arrival.1 c entry') :
    Faithful (j.step humanBytes arrival).2 ∧ Exact j arrival (j.step humanBytes arrival).1 := by
  obtain ⟨hold, -⟩ := openDownload_ok hopen
  obtain ⟨hsame, hkeeps, hnew, hbound⟩ := mergeChunk_ok hmerge
  -- what was taken before agrees with the entry already, and so does the new part
  have hagrees : ∀ part ∈ j.taken c.resourceId ++ [(c.offset, c.chunk)],
      entry'.toAssembly.Agrees part := by
    intro part hpart
    rcases mem_append.mp hpart with hmem | hmem
    · rcases hold with hfind | ⟨hfind, -⟩
      · exact hkeeps part (h.agrees _ _ hfind part hmem)
      · rw [h.none _ hfind] at hmem
        cases hmem
    · rw [mem_singleton.mp hmem]
      exact hnew
  have hretained : entry'.toAssembly.retained ≤ entry'.totalLen := by
    rw [hsame.2.2.2]
    apply hbound
    rcases hold with hfind | ⟨-, hempty⟩
    · exact h.bounded _ _ hfind
    · rw [hempty]
      exact Nat.zero_le _
  obtain ⟨hprogress, hfinds, hout⟩ := finishChunk_spec humanBytes j.state arrival.1 c entry'
  rw [← happly] at hprogress hfinds hout
  have hpart : ∀ id,
      takenPart arrival (applyUploadInlineChunk humanBytes j.state arrival).1 id =
        if id = c.resourceId then [(c.offset, c.chunk)] else [] := by
    intro id
    simp only [takenPart, hchunk, hprogress, and_true, eq_comm]
  refine ⟨⟨?_, ?_, ?_⟩, ?_⟩
  · intro id found hfind part hmem
    rw [Journal.step_taken, hpart] at hmem
    split at hmem
    · rcases hfinds id found hfind with ⟨rfl, rfl⟩ | ⟨hid, hfound⟩
      · rw [if_pos rfl] at hmem
        exact hagrees part hmem
      · rw [if_neg hid, append_nil] at hmem
        exact h.agrees id found hfound part hmem
    · cases hmem
  · intro id found hfind
    rcases hfinds id found hfind with ⟨rfl, rfl⟩ | ⟨hid, hfound⟩
    · exact hretained
    · exact h.bounded id found hfound
  · intro id hfind
    have hno : (applyUploadInlineChunk humanBytes j.state arrival).2.find? id = Option.none := hfind
    rw [Journal.step_taken, hno]
    rfl
  · intro sid id filename contentType bytes hevent part hmem
    obtain ⟨rfl, rfl, hfull⟩ := hout sid id filename contentType bytes hevent
    have hparts : takenPart arrival (j.step humanBytes arrival).1 c.resourceId =
        [(c.offset, c.chunk)] := (hpart c.resourceId).trans (if_pos rfl)
    rw [hparts] at hmem
    -- an entry that is full has each part in its place
    exact Assembly.placed_of_full (hagrees part hmem) (hretained.trans hfull)

/-- The step lemma. -/
theorem Faithful.step (h : Faithful j) (arrival : ChatSessionId × Frame) :
    Faithful (j.step humanBytes arrival).2 ∧ Exact j arrival (j.step humanBytes arrival).1 := by
  cases hchunk : chunkOf arrival.2 with
  | none =>
    obtain ⟨hevents, hstate⟩ := applyUploadInlineChunk_none humanBytes hchunk j.state
    apply h.idle
    · intro id entry hfind
      rw [hstate] at hfind
      exact hfind
    · intro event hevent
      rcases hevents with hnil | ⟨text, hone⟩
      · rw [hnil] at hevent
        cases hevent
      · rw [hone] at hevent
        exact ⟨text, mem_singleton.mp hevent⟩
  | some c =>
    have happly := applyUploadInlineChunk_some humanBytes hchunk j.state
    rcases takeChunk_cases humanBytes j.state arrival.1 c with
      ⟨⟨text, hevents⟩, hself, hothers⟩ | ⟨entry, entry', hopen, hmerge, hfinish⟩
    · rw [← happly] at hevents hself hothers
      apply h.idle
      · intro id entry hfind
        by_cases hid : id = c.resourceId
        · subst hid
          rcases hself with hnone | hsame
          · rw [hnone] at hfind
            cases hfind
          · exact hsame ▸ hfind
        · exact hothers id hid ▸ hfind
      · intro event hevent
        rw [hevents] at hevent
        exact ⟨text, mem_singleton.mp hevent⟩
    · exact h.taken hchunk hopen hmerge (happly.trans hfinish)

/-! The chunks of one file. -/

/-- A file that is sent under a resource's id. -/
structure SentFile where
  resourceId : String
  reply : Server.FetchReply

namespace SentFile
variable (file : SentFile)

def count : Nat := pieceCount file.reply.bytes uploadInlineChunkBytes

/-- The chunk with a number, as it is read back. -/
def chunk (k : Nat) : InlineChunk :=
  { resourceId := file.resourceId
    filename := file.reply.filename
    totalLen := file.reply.bytes.length
    contentType := file.reply.contentType
    offset := uploadInlineChunkBytes * k
    chunk := piece file.reply.bytes uploadInlineChunkBytes k
    done := uploadInlineChunkBytes * k +
      (piece file.reply.bytes uploadInlineChunkBytes k).length ≥ file.reply.bytes.length }

def frames (seq roomId : UInt32) : List Frame :=
  uploadInlineChunkFrames seq roomId file.resourceId file.reply

/-- What the client takes of a file at most. -/
structure WithinLimits : Prop where
  resourceId : (utf8 file.resourceId).length ≤ chatResourceIdMaxBytes
  filename : (utf8 file.reply.filename).length ≤ chatUploadFilenameMaxBytes
  contentType : ∀ value ∈ file.reply.contentType, (utf8 value).length ≤ chatContentTypeMaxBytes
  bytes : file.reply.bytes.length ≤ liveInlineDownloadMaxResourceBytes

end SentFile

variable {file : SentFile}

theorem mem_inlineChunks {seq roomId : UInt32} {resourceId : String} {f : Server.FetchReply}
    {frame : Frame} (k n : Nat) :
    frame ∈ inlineChunks seq roomId resourceId f (uploadInlineChunkBytes * k) n ↔
      ∃ j, k ≤ j ∧ j < k + n ∧ inlineChunks seq roomId resourceId f
        (uploadInlineChunkBytes * j) 1 = [frame] := by
  induction n generalizing k with
  | zero =>
    refine iff_of_false not_mem_nil ?_
    intro ⟨j, hle, hlt, _⟩
    omega
  | succ n ih =>
    have hnext := ih (k + 1)
    rw [Nat.mul_succ] at hnext
    rw [inlineChunks, mem_cons, hnext]
    constructor
    · rintro (rfl | ⟨j, hle, hlt, hframe⟩)
      · exact ⟨k, Nat.le_refl k, by omega, rfl⟩
      · exact ⟨j, by omega, by omega, hframe⟩
    · intro ⟨j, hle, hlt, hframe⟩
      rcases Nat.eq_or_lt_of_le hle with rfl | hlt'
      · exact .inl (cons.inj hframe).1.symm
      · exact .inr ⟨j, hlt', by omega, hframe⟩

/-- The frame of a chunk, by its number. -/
def SentFile.frame (file : SentFile) (seq roomId : UInt32) (k : Nat) : Frame :=
  Frame.new .uploadInlineChunk seq (some roomId) (.fields
    [.string file.resourceId, .string file.reply.filename,
      .u64 (UInt64.ofNat file.reply.bytes.length), contentTypeValue file.reply.contentType,
      .u64 (UInt64.ofNat (uploadInlineChunkBytes * k)),
      .bytes (piece file.reply.bytes uploadInlineChunkBytes k),
      .bool (uploadInlineChunkBytes * k +
        (piece file.reply.bytes uploadInlineChunkBytes k).length ≥
          file.reply.bytes.length)])

theorem mem_frames {frame : Frame} :
    frame ∈ file.frames seq roomId ↔ ∃ k < file.count, file.frame seq roomId k = frame := by
  have hmem := @mem_inlineChunks seq roomId file.resourceId file.reply frame 0 file.count
  rw [Nat.mul_zero] at hmem
  refine hmem.trans ?_
  constructor
  · intro ⟨k, _, hk, hframe⟩
    exact ⟨k, by omega, (cons.inj hframe).1⟩
  · intro ⟨k, hk, hframe⟩
    exact ⟨k, Nat.zero_le k, by omega, congrArg (· :: []) hframe⟩

/-- The frames of a file are its chunks. -/
theorem chunkOf_frame (seq roomId : UInt32)
    (hsmall : file.reply.bytes.length ≤ liveInlineDownloadMaxResourceBytes) (hk : k < file.count) :
    chunkOf (file.frame seq roomId k) = some (file.chunk k) := by
  have hlt : file.reply.bytes.length < 2 ^ 64 := by
    unfold liveInlineDownloadMaxResourceBytes at hsmall
    omega
  have hoff : uploadInlineChunkBytes * k < 2 ^ 64 :=
    Nat.lt_of_le_of_lt (offset_le (by decide) hk) hlt
  cases hcontent : file.reply.contentType <;>
    simp [chunkOf, SentFile.frame, Frame.new, bodyValues, parseInlineChunk, fieldStr, fieldU64,
      fieldBytes, fieldBool, contentTypeValue, hcontent, SentFile.chunk] <;>
    exact ⟨hlt, hoff⟩

/-- A download of a file. -/
structure OfFile (file : SentFile) (sessionId : ChatSessionId) (entry : PendingDownload) : Prop where
  session : entry.sessionId = sessionId
  filename : entry.filename = file.reply.filename
  contentType : entry.contentType = file.reply.contentType
  total : entry.totalLen = file.reply.bytes.length

theorem OfFile.of_same (h : OfFile file sessionId entry) (hsame : SameFile entry entry') :
    OfFile file sessionId entry' where
  session := hsame.1.trans h.session
  filename := hsame.2.1.trans h.filename
  contentType := hsame.2.2.1.trans h.contentType
  total := hsame.2.2.2.trans h.total

/-- A download of a file, with the chunks it has taken. -/
structure Downloading (file : SentFile) (sessionId : ChatSessionId) (taken : Finset Nat)
    (entry : PendingDownload) : Prop extends OfFile file sessionId entry where
  holds : ∃ p, Holds file.reply.bytes uploadInlineChunkBytes taken p entry.toAssembly ∧
    p ∉ taken

theorem uploadInlineChunkBytes_pos : 0 < uploadInlineChunkBytes := by decide

theorem OfFile.drain {taken : Finset Nat} {p : Nat} (h : OfFile file sessionId entry)
    (hholds : Holds file.reply.bytes uploadInlineChunkBytes taken p entry.toAssembly)
    (hin : ∀ j ∈ taken, j < file.count) : Downloading file sessionId taken entry.drain := by
  obtain ⟨p', hholds', hstop⟩ := hholds.absorb uploadInlineChunkBytes_pos hin
    entry.pendingChunks.rows.length
  exact ⟨h.of_same ⟨rfl, rfl, rfl, rfl⟩, p', hholds', hstop (Nat.le_refl _)⟩

/-- A chunk of a file is merged, and nothing that was there is lost. -/
theorem mergeChunk_piece {taken : Finset Nat} (h : Downloading file sessionId taken entry)
    (hin : ∀ j ∈ taken, j < file.count) (hmissing : ∃ j < file.count, j ∉ taken)
    (hk : k < file.count)
    (hroom : k ∉ taken → entry.pendingChunks.rows.length < liveInlineDownloadMaxPendingChunks) :
    ∃ entry', mergeChunk entry (file.chunk k) = .ok entry' ∧
      Downloading file sessionId (insert k taken) entry' := by
  obtain ⟨p, hholds, hp⟩ := h.holds
  have hsize := uploadInlineChunkBytes_pos
  have hlen : (piece file.reply.bytes uploadInlineChunkBytes k).length = _ := length_piece k
  have hoff : uploadInlineChunkBytes * k ≤ file.reply.bytes.length := offset_le hsize hk
  have hof := h.toOfFile.of_same (sameFile_mark entry (file.chunk k).done)
  generalize hmarked : entry.mark (file.chunk k).done = marked at hof
  have hassembly : marked.toAssembly = entry.toAssembly := hmarked ▸ toAssembly_mark _
  rw [← hassembly] at hholds hroom
  have hfront : marked.bytes.length =
      min (uploadInlineChunkBytes * p) file.reply.bytes.length := by
    rw [hholds.front, length_take]
  have hinside : ¬((file.chunk k).offset > marked.totalLen ∨
      (file.chunk k).offset + (file.chunk k).chunk.length > marked.totalLen) := by
    rw [hof.total]
    simp only [SentFile.chunk]
    omega
  unfold mergeChunk
  simp only [hmarked, if_neg hinside]
  by_cases hfirst : (file.chunk k).offset < marked.bytes.length
  · -- the chunk is in its place
    have hkp : k < p := by
      rw [hfront] at hfirst
      have hlt : uploadInlineChunkBytes * k < uploadInlineChunkBytes * p :=
        Nat.lt_of_lt_of_le hfirst (Nat.min_le_left _ _)
      exact Nat.lt_of_mul_lt_mul_left hlt
    have htaken := hholds.reached k hkp
    have hplaced : (file.chunk k).offset + (file.chunk k).chunk.length ≤ marked.bytes.length ∧
        (marked.bytes.drop (file.chunk k).offset).take (file.chunk k).chunk.length =
          (file.chunk k).chunk := hholds.placed hsize hin hkp
    rw [if_pos hfirst, if_pos hplaced, Finset.insert_eq_of_mem htaken]
    exact ⟨_, rfl, hof.drain hholds hin⟩
  · rw [if_neg hfirst]

    by_cases htaken : k ∈ taken
    · -- the chunk waits already
      have hpk : p ≤ k := by
        apply Nat.le_of_not_lt
        intro hlt
        have hmul : uploadInlineChunkBytes * k < uploadInlineChunkBytes * p :=
          Nat.mul_lt_mul_of_pos_left hlt hsize
        have hge : marked.bytes.length ≤ uploadInlineChunkBytes * k := Nat.le_of_not_lt hfirst
        rcases Nat.eq_zero_or_pos k with rfl | hpos
        · obtain ⟨j, hj, hno⟩ := hmissing
          have hone : file.count = 1 := pieceCount_of_nil hsize (by omega)
          have hzero : j = 0 := by omega
          exact hno (hzero ▸ htaken)
        · have hinner := offset_lt hsize hk hpos
          omega
      have hfind : marked.pendingChunks.find? (file.chunk k).offset =
          some ((file.chunk k).offset, (file.chunk k).chunk) :=
        Table.find?_eq_some.mpr ⟨(hholds.waiting _).mpr ⟨k, htaken, hpk, rfl⟩, rfl⟩
      rw [Finset.insert_eq_of_mem htaken]
      simp only [hfind, ne_eq, not_true_eq_false, if_false]
      exact ⟨_, rfl, hof.drain hholds hin⟩
    · have hpk : p ≤ k := Nat.le_of_not_lt fun hlt => htaken (hholds.reached k hlt)
      have hfree : marked.pendingChunks.find? (file.chunk k).offset = none :=
        hholds.free hsize htaken
      have hspace : ¬marked.retainedPayloadBytes + (file.chunk k).chunk.length > marked.totalLen := by
        rw [hof.total]
        exact Nat.not_lt.mpr (hholds.room hsize hin hk htaken)
      simp only [hfree, if_neg (Nat.not_le.mpr (hroom htaken)), if_neg hspace]
      refine ⟨_, rfl, OfFile.drain (hof.of_same ⟨rfl, rfl, rfl, rfl⟩)
        (hholds.wait hsize htaken hpk) ?_⟩
      intro j hj
      rcases Finset.mem_insert.mp hj with rfl | hj
      · exact hk
      · exact hin j hj

/-- How far the download of a file has come. -/
def Reached (file : SentFile) (sessionId : ChatSessionId) (taken : Finset Nat)
    (s : LiveDownloads) : Prop :=
  taken = ∅ ∧ s.find? file.resourceId = none ∨
    taken.Nonempty ∧ ∃ entry, s.find? file.resourceId = some entry ∧
      Downloading file sessionId taken entry

/-- There is room for a chunk of a file: for its download, if there is none, and among the chunks
    that wait, unless the file is as small as the server sends them in chunks. -/
structure HasRoom (file : SentFile) (s : LiveDownloads) : Prop where
  queue : s.find? file.resourceId = none → s.items < liveInlineDownloadMaxItems ∧
    s.reservedBytes + file.reply.bytes.length ≤ liveInlineDownloadMaxBytes
  waiting : ∀ entry, s.find? file.resourceId = some entry →
    entry.pendingChunks.rows.length < liveInlineDownloadMaxPendingChunks ∨
      file.reply.bytes.length ≤ uploadInlineMaxBytes

theorem count_of_small (h : file.reply.bytes.length ≤ uploadInlineMaxBytes) :
    file.count ≤ 64 := by
  unfold SentFile.count pieceCount uploadInlineChunkBytes
  unfold uploadInlineMaxBytes at h
  omega

/-- A chunk of the file finds the file's download. -/
theorem openDownload_piece {taken : Finset Nat} (hlimits : file.WithinLimits)
    (hin : ∀ j ∈ taken, j < file.count) (h : Reached file sessionId taken s)
    (hroom : HasRoom file s) :
    ∃ entry, openDownload s sessionId (file.chunk k) = .ok entry ∧
      Downloading file sessionId taken entry ∧
      entry.pendingChunks.rows.length < liveInlineDownloadMaxPendingChunks := by
  have hmeta : ¬((utf8 (file.chunk k).resourceId).length > chatResourceIdMaxBytes ∨
      (utf8 (file.chunk k).filename).length > chatUploadFilenameMaxBytes ∨
      ((file.chunk k).contentType.any fun value =>
        (utf8 value).length > chatContentTypeMaxBytes) = true ∨
      (file.chunk k).totalLen > liveInlineDownloadMaxResourceBytes) := by
    have hcontent : ((file.chunk k).contentType.any fun value =>
        (utf8 value).length > chatContentTypeMaxBytes) = false := by
      cases hc : file.reply.contentType with
      | none => simp [SentFile.chunk, hc]
      | some value =>
        have hle := hlimits.contentType value (by rw [hc]; rfl)
        simpa [SentFile.chunk, hc] using hle
    have hid := hlimits.resourceId
    have hname := hlimits.filename
    have hbytes := hlimits.bytes
    rw [hcontent]
    simp only [SentFile.chunk, Bool.false_eq_true, false_or, not_or]
    omega
  unfold openDownload
  rw [if_neg hmeta]
  -- the first chunk opens a download, any other finds it
  rcases h with ⟨rfl, hnone⟩ | ⟨-, entry, hfind, hdownloading⟩
  · obtain ⟨hitems, hbytes⟩ := hroom.queue hnone
    have hqueue : ¬(s.items ≥ liveInlineDownloadMaxItems ∨
        s.reservedBytes + (file.chunk k).totalLen > liveInlineDownloadMaxBytes) := by
      simp only [SentFile.chunk]
      omega
    simp only [show s.find? (file.chunk k).resourceId = none from hnone, if_neg hqueue]
    exact ⟨_, rfl, ⟨⟨rfl, rfl, rfl, rfl⟩, 0, Holds.start, Finset.notMem_empty 0⟩,
      (by decide : 0 < liveInlineDownloadMaxPendingChunks)⟩
  · have hsame : ¬(entry.filename ≠ (file.chunk k).filename ∨
        entry.contentType ≠ (file.chunk k).contentType ∨
        entry.totalLen ≠ (file.chunk k).totalLen) := by
      simp only [SentFile.chunk, hdownloading.filename, hdownloading.contentType,
        hdownloading.total]
      simp
    simp only [show s.find? (file.chunk k).resourceId = some entry from hfind,
      hdownloading.session, ne_eq, not_true_eq_false, if_false]
    rw [if_neg hsame]
    refine ⟨entry, rfl, hdownloading, ?_⟩
    -- few wait, or the file has too few chunks for more
    rcases hroom.waiting entry hfind with hfew | hsmall
    · exact hfew
    · obtain ⟨p, hholds, -⟩ := hdownloading.holds
      have hle := hholds.length_waiting uploadInlineChunkBytes_pos hin
      have hcount := count_of_small hsmall
      unfold SentFile.count at hcount
      unfold liveInlineDownloadMaxPendingChunks
      omega

/-- A full download has the file's bytes. -/
theorem Downloading.bytes_eq {taken : Finset Nat} (h : Downloading file sessionId taken entry)
    (hfull : entry.bytes.length = file.reply.bytes.length) : entry.bytes = file.reply.bytes := by
  obtain ⟨p, hholds, -⟩ := h.holds
  rw [hholds.front] at hfull ⊢
  rw [length_take] at hfull
  exact take_of_length_le (by omega)

/-- One chunk of a file: the last one that was missing hands the file out, any other goes on. -/
theorem takeChunk_piece {taken : Finset Nat} (hlimits : file.WithinLimits)
    (hin : ∀ j ∈ taken, j < file.count) (hmissing : ∃ j < file.count, j ∉ taken)
    (hk : k < file.count) (h : Reached file sessionId taken s) (hroom : HasRoom file s) :
    ((∀ j < file.count, j ∈ insert k taken) →
        (takeChunk humanBytes s sessionId (file.chunk k)).1.filter (·.handsOut file.resourceId) =
          [.uploadResourceAvailable sessionId file.resourceId file.reply.filename
            file.reply.contentType file.reply.bytes] ∧
        (takeChunk humanBytes s sessionId (file.chunk k)).2.find? file.resourceId = none) ∧
      ((∃ j < file.count, j ∉ insert k taken) →
        (takeChunk humanBytes s sessionId (file.chunk k)).1.filter (·.handsOut file.resourceId) =
          [] ∧
        Reached file sessionId (insert k taken)
          (takeChunk humanBytes s sessionId (file.chunk k)).2) := by
  obtain ⟨entry, hopen, hdownloading, hfew⟩ := openDownload_piece hlimits hin h hroom
  obtain ⟨entry', hmerge, hnext⟩ :=
    mergeChunk_piece hdownloading hin hmissing hk fun _ => hfew
  have htake : takeChunk humanBytes s sessionId (file.chunk k) =
      finishChunk humanBytes s sessionId (file.chunk k) entry' := by
    rw [takeChunk, hopen]
    simp only [hmerge]
  have hin' : ∀ j ∈ insert k taken, j < file.count := by
    intro j hj
    rcases Finset.mem_insert.mp hj with rfl | hj
    · exact hk
    · exact hin j hj
  obtain ⟨p, hholds, hstop⟩ := hnext.holds
  -- the bytes in front are all of the file if and only if no chunk is missing
  have hcomplete := hholds.complete_iff uploadInlineChunkBytes_pos hin' hstop
    (Finset.insert_nonempty k taken)
  have hle : entry'.bytes.length ≤ file.reply.bytes.length := by
    rw [hholds.front, length_take]
    exact Nat.min_le_right _ _
  rw [htake]
  rcases finishChunk_cases humanBytes s sessionId (file.chunk k) entry' with
    ⟨hlt, hevents, hfinds⟩ | ⟨hfull, ⟨e, hevents, havailable, -⟩, hfinds⟩
  · rw [hnext.total] at hlt hevents
    refine ⟨?_, ?_⟩
    · intro hall
      have heq := hcomplete.mpr hall
      omega
    · intro _
      rw [hevents]
      refine ⟨rfl, .inr ⟨Finset.insert_nonempty k taken, entry', ?_, hnext⟩⟩
      exact (hfinds file.resourceId).trans (if_pos rfl)
  · rw [hnext.total] at hfull hevents havailable
    have heq : entry'.bytes.length = file.reply.bytes.length := Nat.le_antisymm hle hfull
    refine ⟨?_, ?_⟩
    · intro _
      rw [hevents, havailable heq, hnext.filename, hnext.contentType, hnext.bytes_eq heq]
      refine ⟨?_, (hfinds file.resourceId).trans (if_pos rfl)⟩
      simp [DownloadEvent.handsOut, SentFile.chunk]
    · intro ⟨j, hj, hno⟩
      exact absurd (hcomplete.mp heq j hj) hno

/-! Arrivals. -/

/-- Whether a frame has a chunk of a resource. -/
def names (arrival : ChatSessionId × Frame) : Bool :=
  (chunkOf arrival.2).any fun c => c.resourceId == id

theorem names_frame (sessionId : ChatSessionId) (seq roomId : UInt32)
    (hsmall : file.reply.bytes.length ≤ liveInlineDownloadMaxResourceBytes) (hk : k < file.count) :
    names file.resourceId (sessionId, file.frame seq roomId k) = true := by
  simp [names, chunkOf_frame seq roomId hsmall hk, SentFile.chunk]

theorem frame_inj {j : Nat} (hsmall : file.reply.bytes.length ≤ liveInlineDownloadMaxResourceBytes)
    (hj : j < file.count) (hk : k < file.count)
    (h : file.frame seq roomId j = file.frame seq roomId k) : j = k := by
  have hchunk : file.chunk j = file.chunk k := by
    apply Option.some.inj
    rw [← chunkOf_frame seq roomId hsmall hj, ← chunkOf_frame seq roomId hsmall hk, h]
  exact Nat.eq_of_mul_eq_mul_left uploadInlineChunkBytes_pos (congrArg InlineChunk.offset hchunk)

/-- An arrival that names another resource leaves this one alone. -/
theorem applyUploadInlineChunk_other (humanBytes : Nat → String) {id : String}
    (h : names id arrival = false) (s : LiveDownloads) :
    (applyUploadInlineChunk humanBytes s arrival).2.find? id = s.find? id ∧
      (applyUploadInlineChunk humanBytes s arrival).1.filter (·.handsOut id) = [] := by
  cases hchunk : chunkOf arrival.2 with
  | none =>
    obtain ⟨hevents, hstate⟩ := applyUploadInlineChunk_none humanBytes hchunk s
    refine ⟨by rw [hstate], ?_⟩
    rcases hevents with hnil | ⟨text, hone⟩
    · rw [hnil]
      rfl
    · rw [hone]
      rfl
  | some c =>
    have hne : id ≠ c.resourceId := by
      intro heq
      simp [names, hchunk, heq] at h
    rw [applyUploadInlineChunk_some humanBytes hchunk s]
    rcases takeChunk_cases humanBytes s arrival.1 c with
      ⟨⟨text, hevents⟩, -, hothers⟩ | ⟨entry, entry', -, -, hfinish⟩
    · rw [hevents]
      exact ⟨hothers id hne, rfl⟩
    · rw [hfinish]
      obtain ⟨-, -, hout⟩ := finishChunk_spec humanBytes s arrival.1 c entry'
      refine ⟨?_, ?_⟩
      · rcases finishChunk_cases humanBytes s arrival.1 c entry' with
          ⟨-, -, hfinds⟩ | ⟨-, -, hfinds⟩ <;> exact (hfinds id).trans (if_neg hne)
      · rw [filter_eq_nil_iff]
        intro event hevent hhands
        cases event with
        | uploadResourceAvailable sid other filename contentType bytes =>
          have hother : other = id := by simpa [DownloadEvent.handsOut] using hhands
          obtain ⟨heq, -⟩ := hout sid other filename contentType bytes hevent
          exact hne (hother ▸ heq)
        | error | uploadResourceProgress => cases hhands

/-- Arrivals that name other resources. -/
theorem run_other (humanBytes : Nat → String) {id : String}
    (h : ∀ arrival ∈ arrivals, names id arrival = false) (s : LiveDownloads) :
    (run (applyUploadInlineChunk humanBytes) s arrivals).2.find? id = s.find? id ∧
      ((run (applyUploadInlineChunk humanBytes) s arrivals).1.flatMap Prod.snd).filter
        (·.handsOut id) = [] := by
  induction arrivals generalizing s with
  | nil => exact ⟨rfl, rfl⟩
  | cons arrival arrivals ih =>
    obtain ⟨hstate, hevents⟩ :=
      applyUploadInlineChunk_other humanBytes (h arrival mem_cons_self) s
    obtain ⟨hrest, hlater⟩ := ih (fun a ha => h a (mem_cons_of_mem _ ha))
      (applyUploadInlineChunk humanBytes s arrival).2
    refine ⟨hrest.trans hstate, ?_⟩
    rw [run, flatMap_cons, filter_append, hevents, nil_append]
    exact hlater

section Order
variable {taken : Finset Nat} {arrivals : List (ChatSessionId × Frame)}

/-- A chunk arrives only while another one is still to come. -/
def Needed (file : SentFile) (sessionId : ChatSessionId) (seq roomId : UInt32) (taken : Finset Nat)
    (arrivals : List (ChatSessionId × Frame)) : Prop :=
  ∀ before arrival after, arrivals = before ++ arrival :: after →
    names file.resourceId arrival = true →
    ∃ j < file.count, j ∉ taken ∧ (sessionId, file.frame seq roomId j) ∉ before

/-- Every chunk was taken or arrives. -/
def AllCome (file : SentFile) (sessionId : ChatSessionId) (seq roomId : UInt32) (taken : Finset Nat)
    (arrivals : List (ChatSessionId × Frame)) : Prop :=
  ∀ j < file.count, j ∈ taken ∨ (sessionId, file.frame seq roomId j) ∈ arrivals

theorem Needed.tail (h : Needed file sessionId seq roomId taken (arrival :: arrivals)) :
    Needed file sessionId seq roomId taken arrivals := by
  intro before a after hsplit hname
  obtain ⟨j, hj, hno, hbefore⟩ := h (arrival :: before) a after (by rw [hsplit]; rfl) hname
  exact ⟨j, hj, hno, fun hmem => hbefore (mem_cons_of_mem _ hmem)⟩

/-- A chunk that comes later misses one that the first arrival is not. -/
theorem Needed.taking (h : Needed file sessionId seq roomId taken
      ((sessionId, file.frame seq roomId k) :: arrivals)) :
    Needed file sessionId seq roomId (insert k taken) arrivals := by
  intro before a after hsplit hname
  obtain ⟨j, hj, hno, hbefore⟩ := h (_ :: before) a after (by rw [hsplit]; rfl) hname
  refine ⟨j, hj, ?_, fun hmem => hbefore (mem_cons_of_mem _ hmem)⟩
  intro hmem
  rcases Finset.mem_insert.mp hmem with rfl | hmem
  · exact hbefore mem_cons_self
  · exact hno hmem

theorem Needed.quiet (h : Needed file sessionId seq roomId taken arrivals)
    (hfull : ∀ j < file.count, j ∈ taken) : ∀ a ∈ arrivals, names file.resourceId a = false := by
  intro a ha
  obtain ⟨before, after, hsplit⟩ := append_of_mem ha
  rw [← Bool.not_eq_true]
  intro hname
  obtain ⟨j, hj, hno, -⟩ := h before a after hsplit hname
  exact hno (hfull j hj)

theorem AllCome.tail (hsmall : file.reply.bytes.length ≤ liveInlineDownloadMaxResourceBytes)
    (h : AllCome file sessionId seq roomId taken (arrival :: arrivals))
    (hnames : names file.resourceId arrival = false) :
    AllCome file sessionId seq roomId taken arrivals := by
  intro j hj
  rcases h j hj with hmem | hmem
  · exact .inl hmem
  · rcases mem_cons.mp hmem with heq | hmem
    · have hname := names_frame sessionId seq roomId hsmall hj
      rw [heq, hnames] at hname
      cases hname
    · exact .inr hmem

theorem AllCome.taking (hsmall : file.reply.bytes.length ≤ liveInlineDownloadMaxResourceBytes)
    (hk : k < file.count)
    (h : AllCome file sessionId seq roomId taken ((sessionId, file.frame seq roomId k) :: arrivals)) :
    AllCome file sessionId seq roomId (insert k taken) arrivals := by
  intro j hj
  rcases h j hj with hmem | hmem
  · exact .inl (Finset.mem_insert_of_mem hmem)
  · rcases mem_cons.mp hmem with heq | hmem
    · have hjk : j = k := frame_inj hsmall hj hk (Prod.mk.inj heq).2
      exact .inl (hjk ▸ Finset.mem_insert_self j taken)
    · exact .inr hmem

/-- The run lemma: the chunks of a file are put together to the file, once. -/
theorem run_delivers (hlimits : file.WithinLimits)
    (hin : ∀ j ∈ taken, j < file.count) (hmissing : ∃ j < file.count, j ∉ taken)
    (h : Reached file sessionId taken s)
    (hown : ∀ arrival ∈ arrivals, names file.resourceId arrival = true →
      arrival.1 = sessionId ∧ arrival.2 ∈ file.frames seq roomId)
    (hroom : Machine.Meets (applyUploadInlineChunk humanBytes)
      (fun s arrival => names file.resourceId arrival = true → HasRoom file s) s arrivals)
    (hneeded : Needed file sessionId seq roomId taken arrivals)
    (hall : AllCome file sessionId seq roomId taken arrivals) :
    ((run (applyUploadInlineChunk humanBytes) s arrivals).1.flatMap Prod.snd).filter
        (·.handsOut file.resourceId) =
        [.uploadResourceAvailable sessionId file.resourceId file.reply.filename
          file.reply.contentType file.reply.bytes] ∧
      (run (applyUploadInlineChunk humanBytes) s arrivals).2.find? file.resourceId =
        none := by
  induction arrivals generalizing s taken with
  | nil =>
    obtain ⟨j, hj, hno⟩ := hmissing
    rcases hall j hj with hmem | hmem
    · exact absurd hmem hno
    · cases hmem
  | cons arrival arrivals ih =>
    have hown' : ∀ a ∈ arrivals, names file.resourceId a = true →
        a.1 = sessionId ∧ a.2 ∈ file.frames seq roomId :=
      fun a ha => hown a (mem_cons_of_mem _ ha)
    rw [run, flatMap_cons, filter_append]
    cases hnames : names file.resourceId arrival with
    | false =>
      obtain ⟨hstate, hevents⟩ :=
        applyUploadInlineChunk_other humanBytes hnames s
      rw [hevents, nil_append]
      refine ih hin hmissing ?_ hown' hroom.2 hneeded.tail (hall.tail hlimits.bytes hnames)
      unfold Reached
      rw [hstate]
      exact h
    | true =>
      obtain ⟨hsession, hframe⟩ := hown arrival mem_cons_self hnames
      obtain ⟨k, hk, hframe⟩ := mem_frames.mp hframe
      obtain rfl : arrival = (sessionId, file.frame seq roomId k) := Prod.ext hsession hframe.symm
      obtain ⟨hdone, hmore⟩ := takeChunk_piece (s := s) hlimits hin hmissing hk h
        (hroom.1 hnames)
      have happly : applyUploadInlineChunk humanBytes s (sessionId, file.frame seq roomId k) =
          takeChunk humanBytes s sessionId (file.chunk k) :=
        applyUploadInlineChunk_some humanBytes (chunkOf_frame seq roomId hlimits.bytes hk) s
      rw [← happly] at hdone hmore
      by_cases hleft : ∃ j < file.count, j ∉ insert k taken
      · obtain ⟨hevents, hreached⟩ := hmore hleft
        rw [hevents, nil_append]
        refine ih ?_ hleft hreached hown' hroom.2 hneeded.taking (hall.taking hlimits.bytes hk)
        intro j hj
        rcases Finset.mem_insert.mp hj with rfl | hj
        · exact hk
        · exact hin j hj
      · have hfull : ∀ j < file.count, j ∈ insert k taken := by
          intro j hj
          by_contra hno
          exact hleft ⟨j, hj, hno⟩
        obtain ⟨hevents, hnone⟩ := hdone hfull
        -- all chunks have come: nothing that follows is of this file
        obtain ⟨hstate, hrest⟩ := run_other humanBytes (hneeded.taking.quiet hfull)
          (applyUploadInlineChunk humanBytes s (sessionId, file.frame seq roomId k)).2
        rw [hevents, hrest]
        exact ⟨rfl, hstate.trans hnone⟩

end Order

/-- A delivery of a file's chunks, in any order and with repetitions among anything else: only this
    session has the resource, there is room where a chunk comes, all chunks come, and none comes when
    all others have come and it too. -/
structure Delivery (humanBytes : Nat → String) (file : SentFile) (sessionId : ChatSessionId)
    (seq roomId : UInt32) (s : LiveDownloads) (arrivals : List (ChatSessionId × Frame)) : Prop where
  limits : file.WithinLimits
  fresh : s.find? file.resourceId = none
  own : ∀ arrival ∈ arrivals, names file.resourceId arrival = true →
    arrival.1 = sessionId ∧ arrival.2 ∈ file.frames seq roomId
  room : Machine.Meets (applyUploadInlineChunk humanBytes)
    (fun s arrival => names file.resourceId arrival = true → HasRoom file s) s arrivals
  early : ∀ before arrival after, arrivals = before ++ arrival :: after →
    names file.resourceId arrival = true →
    ∃ frame ∈ file.frames seq roomId, (sessionId, frame) ∉ before
  all : ∀ frame ∈ file.frames seq roomId, (sessionId, frame) ∈ arrivals

/-- A delivered file is handed out once, with its bytes, its name and its type, and nothing of it
    stays; and whatever is handed out agrees with every chunk that was taken for it. -/
theorem inline_download_reassembled (humanBytes : Nat → String) :
    (∀ file sessionId seq roomId s arrivals,
      Delivery humanBytes file sessionId seq roomId s arrivals →
      ((run (applyUploadInlineChunk humanBytes) s arrivals).1.flatMap Prod.snd).filter
          (·.handsOut file.resourceId) =
          [.uploadResourceAvailable sessionId file.resourceId file.reply.filename
            file.reply.contentType file.reply.bytes] ∧
        (run (applyUploadInlineChunk humanBytes) s arrivals).2.find? file.resourceId =
          none) ∧
      ∀ status arrivals, Machine.Meets (Journal.step humanBytes)
        (fun j arrival => Exact j arrival (j.step humanBytes arrival).1)
        { state := .empty status, taken := fun _ => [] } arrivals := by
  constructor
  · intro file sessionId seq roomId s arrivals h
    have hcount : 0 < file.count := Nat.lt_of_lt_of_le Nat.zero_lt_one (Nat.le_max_left _ _)
    apply run_delivers h.limits (by simp) ⟨0, hcount, Finset.notMem_empty 0⟩ (.inl ⟨rfl, h.fresh⟩)
      h.own h.room
    · intro before arrival after hsplit hname
      obtain ⟨frame, hframe, hno⟩ := h.early before arrival after hsplit hname
      obtain ⟨k, hk, rfl⟩ := mem_frames.mp hframe
      exact ⟨k, hk, Finset.notMem_empty k, hno⟩
    · intro k hk
      exact .inr (h.all _ (mem_frames.mpr ⟨k, hk, rfl⟩))
  · intro status arrivals
    refine meets_of_invariant (I := Faithful) (fun j arrival hj _ => (hj.step arrival).1)
      (fun j arrival hj _ => (hj.step arrival).2) (meets_true _ _) ⟨?_, ?_, ?_⟩
    · intro id entry hfind
      cases hfind
    · intro id entry hfind
      cases hfind
    · intro id _
      rfl

/-- A chunk that has not come before the last arrival is missing all along. -/
theorem early_of_last {sessionId : ChatSessionId} {frame : Frame}
    {front : List (ChatSessionId × Frame)} {last : ChatSessionId × Frame}
    (hframe : frame ∈ file.frames seq roomId) (hno : (sessionId, frame) ∉ front) :
    ∀ before arrival after, front ++ [last] = before ++ arrival :: after →
      names file.resourceId arrival = true →
      ∃ frame ∈ file.frames seq roomId, (sessionId, frame) ∉ before := by
  intro before arrival after hsplit _
  refine ⟨frame, hframe, fun hmem => hno ?_⟩
  have hprefixed : before <+: front := by
    have hlen := congrArg length hsplit
    simp only [length_append, length_cons, length_nil] at hlen
    exact prefix_of_prefix_length_le ⟨_, hsplit.symm⟩ ⟨_, rfl⟩ (by omega)
  exact hprefixed.subset hmem

/-- A file of two chunks. -/
def sentNote : SentFile :=
  { resourceId := "upload:1:7:4"
    reply :=
      { bytes := replicate 256 97 ++ [98], byteLen := 257, filename := "note.txt"
        contentType := some "text/plain" } }

/-- Another file of two chunks. -/
def sentImage (n : Nat) : SentFile :=
  { resourceId := "image-" ++ toString n, reply := sentNote.reply }

/-- The second chunk first, and again, and the first one last, with another session's in between. -/
def noteArrivals : List (ChatSessionId × Frame) :=
  [(1, sentNote.frame 9 1 1), (2, (sentImage 0).frame 9 1 0), (1, sentNote.frame 9 1 1)]

def noStatus : ChatSessionId → Option String := fun _ => none

theorem delivery_note : Delivery toString sentNote 1 9 1 (.empty noStatus)
    (noteArrivals ++ [(1, sentNote.frame 9 1 0)]) where
  limits :=
    { resourceId := by decide +kernel
      filename := by decide +kernel
      contentType := by decide +kernel
      bytes := by decide +kernel }
  fresh := rfl
  own := by
    have hown : ∀ arrival ∈ noteArrivals ++ [(1, sentNote.frame 9 1 0)],
        names sentNote.resourceId arrival = true →
        arrival = (1, sentNote.frame 9 1 0) ∨ arrival = (1, sentNote.frame 9 1 1) := by
      intro arrival harrival hname
      simp only [noteArrivals, cons_append, nil_append, mem_cons,
        not_mem_nil, or_false] at harrival
      rcases harrival with rfl | rfl | rfl | rfl
      · exact .inr rfl
      · exact absurd hname (by decide +kernel)
      · exact .inr rfl
      · exact .inl rfl
    intro arrival harrival hname
    rcases hown arrival harrival hname with rfl | rfl
    · exact ⟨rfl, mem_frames.mpr ⟨0, by decide +kernel, rfl⟩⟩
    · exact ⟨rfl, mem_frames.mpr ⟨1, by decide +kernel, rfl⟩⟩
  room := by
    refine ⟨?_, ?_, ?_, ?_, trivial⟩ <;>
      exact fun _ => ⟨fun _ => by decide +kernel, fun _ _ => .inr (by decide +kernel)⟩
  early := by
    apply early_of_last (mem_frames.mpr ⟨0, by decide +kernel, rfl⟩)
    have hne : sentNote.frame 9 1 0 ≠ sentNote.frame 9 1 1 := by
      intro heq
      have hzero := frame_inj (by decide +kernel) (by decide +kernel) (by decide +kernel) heq
      cases hzero
    simp [noteArrivals, hne]
  all := by
    intro frame hframe
    obtain ⟨k, hk, rfl⟩ := mem_frames.mp hframe
    have hcount : sentNote.count = 2 := by decide +kernel
    obtain rfl | rfl : k = 0 ∨ k = 1 := by omega
    · simp
    · simp [noteArrivals]

theorem inline_download_reassembled_note :
    ((run (applyUploadInlineChunk toString) (.empty noStatus)
      (noteArrivals ++ [(1, sentNote.frame 9 1 0)])).1.flatMap Prod.snd).filter
        (·.handsOut "upload:1:7:4") =
        [.uploadResourceAvailable 1 "upload:1:7:4" "note.txt" (some "text/plain")
          (replicate 256 97 ++ [98])] :=
  ((inline_download_reassembled toString).1 sentNote 1 9 1 (.empty noStatus) _ delivery_note).1

/-- A chunk that comes late starts the download again, and a file of one chunk that comes twice is
    handed out twice; with the queue full, or the id taken by another session, a file is not handed
    out at all. -/
theorem inline_download_not_reassembled :
    (run (applyUploadInlineChunk toString) (.empty noStatus)
      [(1, sentNote.frame 9 1 0), (1, sentNote.frame 9 1 1),
        (1, sentNote.frame 9 1 0)]).2.reservedBytes = 257 ∧
      (let short : SentFile := { sentNote with reply := { sentNote.reply with bytes := [97] } }
      ((run (applyUploadInlineChunk toString) (.empty noStatus)
        [(1, short.frame 9 1 0), (1, short.frame 9 1 0)]).1.flatMap Prod.snd).countP
          (·.handsOut "upload:1:7:4") = 2) ∧
      ((run (applyUploadInlineChunk toString) (.empty noStatus)
        (((range 16).map fun n => (1, (sentImage n).frame 9 1 0)) ++
          [(1, sentNote.frame 9 1 0), (1, sentNote.frame 9 1 1)])).1.flatMap Prod.snd).countP
            (·.handsOut "upload:1:7:4") = 0 ∧
      ((run (applyUploadInlineChunk toString) (.empty noStatus)
        [(2, sentNote.frame 9 1 0), (1, sentNote.frame 9 1 0),
          (1, sentNote.frame 9 1 1)]).1.flatMap Prod.snd).countP (·.handsOut "upload:1:7:4") = 0 := by
  decide +kernel

end Omen.Client
