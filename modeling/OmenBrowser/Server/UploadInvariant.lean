import OmenBrowser.Server.UploadRuns

/- What a run keeps of the files, the index and the stages (`server/src/upload.rs`,
   `server/src/store.rs`).

   Every row of the index has its file, every open stage has its own, and no two of these are one
   file. A step keeps this where it removes what it means to remove and finds a free name for what it
   publishes. -/
namespace Omen.Server
open Wire Sql Ints Omen.Protocol

variable {limits : UploadLimits} {s s' t : UploadServer} {i : UploadInput} {identity content : Bytes}
  {own : List UploadPath} {resourceId : String} {upload : PendingUpload} {stored : StoredUpload}
  {a : Except ServerError UploadAnswer}

structure UploadsKept (s : UploadServer) : Prop where
  paths : ∀ r ∈ s.uploads.rows, ∀ q ∈ s.uploads.rows, r.path = q.path → r = q
  files : ∀ r ∈ s.uploads.rows, ∃ bytes, s.disk.read r.path = some bytes ∧ bytes.length = r.byteLen
  stagePaths : ∀ a ∈ s.stages.rows, ∀ b ∈ s.stages.rows, a.path = b.path → a = b
  stageFiles : ∀ a ∈ s.stages.rows, s.disk.read a.path ≠ none
  apart : ∀ r ∈ s.uploads.rows, ∀ a ∈ s.stages.rows, r.path ≠ a.path

/-- The removals of the step do not fail, and it finds a free name for every upload on offer. -/
structure StepRemoves (s : UploadServer) (i : UploadInput) : Prop where
  files : ∀ p, i.faults.file (.remove p) = false
  records : i.faults.store .removeEvicted = none
  names : ∀ entry ∈ s.pending.rows, s.disk.read (nextUploadPath s.taken entry.identityHash
    entry.upload.filename i.readings.millis) = none

namespace UploadsKept

variable (h : UploadsKept s)
include h

/-- The files and the tables are all there is to it. -/
theorem of_eq (huploads : s'.uploads = s.uploads) (hstages : s'.stages = s.stages)
    (hdisk : s'.disk = s.disk) : UploadsKept s' := by
  constructor
  · rw [huploads]; exact h.paths
  · rw [huploads, hdisk]; exact h.files
  · rw [hstages]; exact h.stagePaths
  · rw [hstages, hdisk]; exact h.stageFiles
  · rw [huploads, hstages]; exact h.apart

theorem of_aside (haside : Aside s s') : UploadsKept s' :=
  h.of_eq haside.uploads haside.stages haside.disk

/-- Some stages are closed, and files go that are neither a row's nor an open stage's. -/
theorem close (huploads : s'.uploads = s.uploads)
    (hstages : ∀ a ∈ s'.stages.rows, a ∈ s.stages.rows)
    (hrows : ∀ r ∈ s.uploads.rows, s'.disk.read r.path = s.disk.read r.path)
    (hfiles : ∀ a ∈ s'.stages.rows, s'.disk.read a.path = s.disk.read a.path) : UploadsKept s' where
  paths := by rw [huploads]; exact h.paths
  files r hr := by
    rw [huploads] at hr
    rw [hrows r hr]
    exact h.files r hr
  stagePaths a ha b hb := h.stagePaths a (hstages a ha) b (hstages b hb)
  stageFiles a ha := by
    rw [hfiles a ha]
    exact h.stageFiles a (hstages a ha)
  apart r hr a ha := by
    rw [huploads] at hr
    exact h.apart r hr a (hstages a ha)

theorem opened {linkId : LinkId} {peer : ServerPeer} {totalBytes : UInt64} {path : UploadPath}
    (hopens : Opens limits linkId peer resourceId totalBytes s s' path) :
    UploadsKept s' := by
  have hfree : s.disk.read path = none := read_of_not_taken hopens.free
  have hread : ∀ q, s'.disk.read q = if q = path then some [] else s.disk.read q := by
    intro q
    rw [hopens.disk, Disk.read_put]
  have huploads : s'.uploads = s.uploads := hopens.rest.uploads
  -- the new path is free, and every upload and stage has a file
  have hrow : ∀ r ∈ s.uploads.rows, r.path ≠ path := by
    intro r hr hpath
    obtain ⟨bytes, hbytes, _⟩ := h.files r hr
    rw [hpath, hfree] at hbytes
    cases hbytes
  have hstage : ∀ a ∈ s.stages.rows, a.path ≠ path :=
    fun a ha hpath => h.stageFiles a ha (hpath ▸ hfree)
  constructor
  · rw [huploads]
    exact h.paths
  · intro r hr
    rw [huploads] at hr
    rw [hread, if_neg (hrow r hr)]
    exact h.files r hr
  · intro a ha b hb hpath
    rcases hopens.mem_stages.mp ha with rfl | ha
    · rcases hopens.mem_stages.mp hb with rfl | hb
      · rfl
      · exact absurd hpath.symm (hstage b hb)
    · rcases hopens.mem_stages.mp hb with rfl | hb
      · exact absurd hpath (hstage a ha)
      · exact h.stagePaths a ha b hb hpath
  · intro a ha
    rcases hopens.mem_stages.mp ha with rfl | ha
    · show s'.disk.read path ≠ none
      rw [hread, if_pos rfl]
      exact Option.some_ne_none _
    · rw [hread, if_neg (hstage a ha)]
      exact h.stageFiles a ha
  · intro r hr a ha
    rw [huploads] at hr
    rcases hopens.mem_stages.mp ha with rfl | ha
    · exact hrow r hr
    · exact h.apart r hr a ha

/-- Bytes go into the file of a stage. -/
theorem extended {stage : ChannelUploadStage} {bytes : Bytes}
    (hstage : stage ∈ s.stages.rows) (huploads : s'.uploads = s.uploads)
    (hstages : ∀ a ∈ s'.stages.rows, ∃ b ∈ s.stages.rows, a.path = b.path ∧ a.key = b.key)
    (hdisk : s'.disk = s.disk.extend stage.path bytes) : UploadsKept s' := by
  have hsome : ∀ q, s'.disk.read q = none ↔ s.disk.read q = none := by
    intro q
    rw [hdisk, Disk.read_extend]
    split
    · next hq => rw [Option.map_eq_none_iff, hq]
    · rfl
  constructor
  · rw [huploads]
    exact h.paths
  · intro r hr
    rw [huploads] at hr
    rw [hdisk, Disk.read_extend, if_neg (h.apart r hr stage hstage)]
    exact h.files r hr
  · intro a ha b hb hpath
    obtain ⟨a', ha', hpatha, hkeya⟩ := hstages a ha
    obtain ⟨b', hb', hpathb, hkeyb⟩ := hstages b hb
    have hsame : a' = b' := h.stagePaths a' ha' b' hb' (by rw [← hpatha, ← hpathb, hpath])
    exact Table.eq_of_key ha hb (by rw [hkeya, hkeyb, hsame])
  · intro a ha
    obtain ⟨a', ha', hpath, _⟩ := hstages a ha
    rw [hpath, ne_eq, hsome]
    exact h.stageFiles a' ha'
  · intro r hr a ha
    rw [huploads] at hr
    obtain ⟨a', ha', hpath, _⟩ := hstages a ha
    rw [hpath]
    exact h.apart r hr a' ha'

/-- Where a publication starts, the file it comes from is no row's and no open stage's. -/
theorem committing (hc : Committing s own t) :
    UploadsKept t ∧ t.disk = s.disk ∧ t.uploads = s.uploads ∧
      (∀ r ∈ t.uploads.rows, r.path ∉ own) ∧ ∀ a ∈ t.stages.rows, a.path ∉ own := by
  rcases hc with ⟨rfl, rfl⟩ | ⟨stage, hstage, rfl, rfl⟩
  · exact ⟨h, rfl, rfl, fun _ _ => List.not_mem_nil, fun _ _ => List.not_mem_nil⟩
  · have hkept : ∀ a ∈ (s.removeStage stage.key).stages.rows, a ∈ s.stages.rows ∧ a ≠ stage := by
      intro a ha
      obtain ⟨ha, hkey⟩ := Table.mem_deleteWhere.mp ha
      refine ⟨ha, fun heq => ?_⟩
      rw [heq, beq_self_eq_true] at hkey
      cases hkey
    refine ⟨h.close rfl (fun a ha => (hkept a ha).1) (fun _ _ => rfl) fun _ _ => rfl, rfl, rfl, ?_, ?_⟩
    · intro r hr hown
      exact h.apart r hr stage hstage (List.mem_singleton.mp hown)
    · intro a ha hown
      obtain ⟨ha, hne⟩ := hkept a ha
      exact hne (h.stagePaths a ha stage hstage (List.mem_singleton.mp hown))

omit h

/-- What a publication takes back was its own. -/
theorem takenBack (h : UploadsKept t) (hrows : ∀ r ∈ t.uploads.rows, r.path ∉ own)
    (hstages : ∀ a ∈ t.stages.rows, a.path ∉ own)
    (hfree : t.disk.read (nextUploadPath t.taken identity upload.filename i.readings.millis) = none)
    (hback : TakenBack identity own upload i.readings a t s') : UploadsKept s' := by
  obtain ⟨gone, hread, hgone⟩ := hback.files
  have hsame : ∀ q, q ∉ own → t.disk.read q ≠ none → s'.disk.read q = t.disk.read q := by
    intro q hown hfile
    rw [hread, if_neg]
    intro hq
    rcases hgone q hq with hq | hq
    · exact hown hq
    · rw [hq] at hfile
      exact hfile hfree
  have hstages' : s'.stages = t.stages := hback.rest.stages
  refine h.close hback.rest.uploads (fun a ha => hstages' ▸ ha) (fun r hr => ?_) fun a ha => ?_
  · obtain ⟨bytes, hbytes, _⟩ := h.files r hr
    exact hsame r.path (hrows r hr) (by rw [hbytes]; exact Option.some_ne_none _)
  · rw [hstages'] at ha
    exact hsame a.path (hstages a ha) (h.stageFiles a ha)

end UploadsKept

/-! What a publication does to the index. -/

/-- The row a publication writes. -/
def newRow (i : UploadInput) (resourceId : String) (upload : PendingUpload) (stored : StoredUpload) :
    UploadFileRow := UploadFileRow.of resourceId upload i.readings.recorded stored

section
variable
  (h : UploadDone limits i.faults i.readings identity own resourceId upload content stored t s')
include h

/-- The index has the new row, and the others but for those it replaces and those evicted. -/
theorem UploadDone.mem_uploads (hrecords : i.faults.store .removeEvicted = none) {r : UploadFileRow} :
    r ∈ s'.uploads.rows ↔ r = newRow i resourceId upload stored ∨
      (r ∈ t.uploads.rows ∧ r.resourceId ≠ resourceId ∧
        ¬(r.actorUserId = upload.userId ∧ r.path ∈ stored.evicted)) := by
  have hset : ∀ q, q ∈ (t.setUpload (newRow i resourceId upload stored)).uploads.rows ↔
      q = newRow i resourceId upload stored ∨ (q ∈ t.uploads.rows ∧ q.resourceId ≠ resourceId) := by
    intro q
    exact Table.mem_upsert fun p hp => by rw [hp]
  rw [h.uploads, if_pos hrecords]
  show r ∈ ((t.setUpload (newRow i resourceId upload stored)).uploads.deleteWhere _).rows ↔ _
  rw [Table.mem_deleteWhere, hset]
  simp only [Bool.and_eq_false_iff, beq_eq_false_iff_ne, bne_eq_false_iff_eq]
  constructor
  · rintro ⟨rfl | ⟨hr, hid⟩, hkeep⟩
    · exact .inl rfl
    · refine .inr ⟨hr, hid, ?_⟩
      rintro ⟨hactor, hevicted⟩
      rcases hkeep with (hne | hne) | heq
      · exact hne hactor
      · rw [List.contains_iff_mem.mpr hevicted] at hne
        cases hne
      · exact hid heq
  · rintro (rfl | ⟨hr, hid, hkeep⟩)
    · exact ⟨.inl rfl, .inr rfl⟩
    · refine ⟨.inr ⟨hr, hid⟩, .inl ?_⟩
      by_cases hactor : r.actorUserId = upload.userId
      · right
        cases hc : stored.evicted.contains r.path with
        | false => rfl
        | true => exact absurd ⟨hactor, List.contains_iff_mem.mp hc⟩ hkeep
      · exact .inl hactor

/-- A file that is evicted is one of the user's rows', and not the new one. -/
theorem UploadDone.of_evicted {q : UploadPath} (hq : q ∈ stored.evicted) :
    q ≠ stored.path ∧ ∃ r ∈ t.uploads.rows, r.actorUserId = upload.userId ∧ r.path = q := by
  obtain ⟨disk, _, hevicted⟩ := h.evicted
  rw [hevicted] at hq
  obtain ⟨hplan, hpath, _, _⟩ := evictFiles_eq.1 q hq
  refine ⟨hpath, ?_⟩
  obtain ⟨r, hr, rfl⟩ := List.mem_map.mp hplan
  have hentry : r ∈ t.entries upload.userId := evictedRows_subset hr
  obtain ⟨hmem, hactor⟩ := UploadServer.mem_entries.mp hentry
  exact ⟨r, hmem, hactor, rfl⟩

end

theorem UploadsKept.published (h : UploadsKept t)
    (hrows : ∀ r ∈ t.uploads.rows, r.path ∉ own) (hstages : ∀ a ∈ t.stages.rows, a.path ∉ own)
    (hfree : t.disk.read stored.path = none) (hrecords : i.faults.store .removeEvicted = none)
    (hdone : UploadDone limits i.faults i.readings identity own resourceId upload content stored t s') :
    UploadsKept s' := by
  have hrow : ∀ r ∈ t.uploads.rows, r.path ≠ stored.path := by
    intro r hr hpath
    obtain ⟨bytes, hbytes, _⟩ := h.files r hr
    rw [hpath, hfree] at hbytes
    cases hbytes
  have hstage : ∀ a ∈ t.stages.rows, a.path ≠ stored.path :=
    fun a ha hpath => h.stageFiles a ha (hpath ▸ hfree)
  -- a row that stays was not evicted, as no other row has its path
  have hkeeps : ∀ r ∈ t.uploads.rows, ¬(r.actorUserId = upload.userId ∧ r.path ∈ stored.evicted) →
      r.path ∉ stored.evicted := by
    intro r hr hkeep hevicted
    obtain ⟨_, q, hq, hactor, hpath⟩ := hdone.of_evicted hevicted
    rw [h.paths q hq r hr hpath] at hactor
    exact hkeep ⟨hactor, hevicted⟩
  have hread : ∀ q, q ∉ stored.evicted → q ≠ stored.path → q ∉ own →
      s'.disk.read q = t.disk.read q := by
    intro q hevicted hpath hown
    rw [hdone.files, if_neg hevicted, if_neg hpath, if_neg hown]
  constructor
  · intro r hr q hq hpath
    rcases (hdone.mem_uploads hrecords).mp hr with rfl | ⟨hr, _⟩
    · rcases (hdone.mem_uploads hrecords).mp hq with rfl | ⟨hq, _⟩
      · rfl
      · exact absurd hpath.symm (hrow q hq)
    · rcases (hdone.mem_uploads hrecords).mp hq with rfl | ⟨hq, _⟩
      · exact absurd hpath (hrow r hr)
      · exact h.paths r hr q hq hpath
  · intro r hr
    rcases (hdone.mem_uploads hrecords).mp hr with rfl | ⟨hr, _, hkeep⟩
    · refine ⟨content, ?_, hdone.length⟩
      show s'.disk.read stored.path = some content
      rw [hdone.files, if_neg fun hq => (hdone.of_evicted hq).1 rfl, if_pos rfl]
    · rw [hread r.path (hkeeps r hr hkeep) (hrow r hr) (hrows r hr)]
      exact h.files r hr
  · intro a ha b hb hpath
    rw [hdone.stages] at ha hb
    exact h.stagePaths a ha b hb hpath
  · intro a ha
    rw [hdone.stages] at ha
    rw [hread a.path ?_ (hstage a ha) (hstages a ha)]
    · exact h.stageFiles a ha
    · intro hevicted
      obtain ⟨_, r, hr, _, hpath⟩ := hdone.of_evicted hevicted
      exact h.apart r hr a ha hpath
  · intro r hr a ha
    rw [hdone.stages] at ha
    rcases (hdone.mem_uploads hrecords).mp hr with rfl | ⟨hr, _⟩
    · exact fun hpath => hstage a ha hpath.symm
    · exact h.apart r hr a ha

/-! Runs. -/

theorem StepRemoves.free (h : StepRemoves s i) (hoffered : Offered s identity resourceId upload)
    (hdisk : t.disk = s.disk) :
    t.disk.read (nextUploadPath t.taken identity upload.filename i.readings.millis) = none := by
  obtain ⟨entry, hentry, _, rfl, rfl⟩ := hoffered
  have htaken : t.taken = s.taken := by
    funext p
    rw [UploadServer.taken, UploadServer.taken, hdisk]
  rw [htaken, hdisk]
  exact h.names entry hentry

theorem UploadEffect.kept (h : UploadsKept s) (hstep : StepRemoves s i)
    (heffect : UploadEffect limits i s a s') : UploadsKept s' := by
  cases heffect with
  | aside haside _ => exact h.of_aside haside
  | elsewhere rooms database => exact h.of_eq rfl rfl rfl
  | opened hopens => exact h.opened hopens
  | wrote hstage _ =>
    refine h.extended hstage rfl (fun a ha => ?_) rfl
    obtain ⟨b, hb, rfl⟩ := List.mem_map.mp ha
    refine ⟨b, hb, ?_, ?_⟩
    · split
      · rfl
      · rfl
    · split
      · rfl
      · rfl
  | brokeOff hstage _ => exact h.extended hstage rfl (fun a ha => ⟨a, ha, rfl, rfl⟩) rfl
  | @dropped gone _ _ _ hstages hfiles hrest =>
    refine h.close hrest.uploads (fun a ha => ?_) (fun r hr => ?_) fun a ha => ?_
    · rw [hstages] at ha
      exact (Table.mem_deleteWhere.mp ha).1
    · rw [hfiles, if_neg]
      rintro ⟨b, hb, _, hpath⟩
      exact h.apart r hr b hb hpath.symm
    · rw [hstages] at ha
      obtain ⟨ha, hkeep⟩ := Table.mem_deleteWhere.mp ha
      rw [hfiles, if_neg]
      rintro ⟨b, hb, hgone, hpath⟩
      rw [h.stagePaths b hb a ha hpath, hkeep] at hgone
      cases hgone
  | left hstage hdisk hstages hrest =>
    refine h.close hrest.uploads (fun a ha => ?_) (fun r _ => by rw [hdisk]) fun a _ => by rw [hdisk]
    rw [hstages] at ha
    exact (Table.mem_deleteWhere.mp ha).1
  | takenBack hc hoffered hback =>
    obtain ⟨hkept, hdisk, huploads, hrows, hstages⟩ := h.committing hc
    exact hkept.takenBack hrows hstages (hstep.free hoffered hdisk) hback
  | published hc _ hoffered _ hpublished =>
    obtain ⟨hkept, hdisk, huploads, hrows, hstages⟩ := h.committing hc
    obtain ⟨stored, s₁, hdone, hend⟩ := hpublished
    -- the new name was free, so no other upload has the file
    have hfree := hstep.free hoffered hdisk
    rw [← hdone.path] at hfree
    have hkept₁ : UploadsKept s₁ := hkept.published hrows hstages hfree hstep.records hdone
    rcases hend with ⟨_, _, rfl⟩ | ⟨event, _, database, _, rfl⟩
    · exact hkept₁
    · exact hkept₁.of_eq rfl rfl rfl
  | restarted =>
    exact h.close rfl nofun (fun _ _ => rfl) nofun

theorem uploadStep_kept (s : UploadServer) (i : UploadInput) (h : UploadsKept s)
    (hstep : StepRemoves s i) : UploadsKept (uploadStep limits s i).2 :=
  (uploadStep_cases limits s i).kept h hstep

end Omen.Server
