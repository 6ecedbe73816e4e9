import OmenBrowser.Server.UploadSteps

/- What a publication that fails leaves behind (`server/src/upload.rs`, `server/src/session.rs`).

   Up to the record a failure is taken back: the temporary file, the file under the picked name and
   the staged file are removed. Two things are not taken back. The room event is appended last, in a
   transaction of its own, when the file and the row are there and the evicted uploads are gone; and
   a picked name that was taken, the fallback behind a thousand numbered ones, loses the file that
   was under it. -/
namespace Omen.Server
open Wire Sql Ints Omen.Protocol Except

variable {limits : UploadLimits} {faults : Faults} {readings : Readings} {s s' : UploadServer}
  {peer : ServerPeer} {resourceId : String} {upload : PendingUpload} {media : Bool}
  {staged : UploadPath} {incomingBytes : UInt64} {e : ServerError}
  {data : Bytes} {upload upload' : PendingUpload}

/-- Nothing was published and nothing evicted; files of the request's own may be gone. -/
structure NothingPublished (own : List UploadPath) (s s' : UploadServer) : Prop where
  files : Disk.Within own s.disk s'.disk
  own : ∀ p ∈ own, s'.disk.read p = s.disk.read p ∨ s'.disk.read p = none
  rows : s'.uploads = s.uploads
  events : s'.database.roomEvents = s.database.roomEvents

theorem Aside.nothing (h : Aside s s') (own : List UploadPath) : NothingPublished own s s' where
  files := fun q _ => by rw [h.disk]
  own := fun p _ => .inl (by rw [h.disk])
  rows := h.uploads
  events := h.events

/-- A file of the request's own that is removed. -/
theorem Aside.nothing_erase (h : Aside s s') (own : UploadPath) :
    NothingPublished [own] s (s'.erase own) where
  files := by
    intro q hq
    have hne : q ≠ own := fun hqo => hq (hqo ▸ List.mem_cons_self)
    rw [← h.disk]
    exact (Disk.read_erase s'.disk own q).trans (if_neg hne)
  own := by
    intro p hp
    obtain rfl := List.mem_singleton.mp hp
    exact .inr ((Disk.read_erase s'.disk p p).trans (if_pos rfl))
  rows := h.uploads
  events := h.events

/-- After a publication a request fails iff its event cannot be appended, and leaves the files as
the publication had. -/
theorem announce_error {stored : StoredUpload}
    (h : announce limits faults readings resourceId upload stored s = (.error e, s')) :
    ¬EventAppends limits faults readings resourceId upload stored.bytes s ∧ s'.disk = s.disk := by
  rcases announce_cases h with ⟨_, hevent, hs⟩ | ⟨_, hr, _⟩
  · rw [cleanLedger_eq] at hs
    obtain ⟨hdisk, hdatabase⟩ : s'.disk = s.disk ∧ s'.database = s.database := by
      rw [hs]
      split
      · exact ⟨rfl, rfl⟩
      · exact ⟨rfl, rfl⟩
    refine ⟨fun happends => hevent ?_, hdisk⟩
    rw [EventAppends, hdatabase]
    exact happends
  · cases hr

/-! Uploads that arrive whole. -/

section
variable (limits : UploadLimits) (faults : Faults) (readings : Readings) (peer : ServerPeer)
  (resourceId : String) (data : Bytes) (media : Bool) (s : UploadServer)

/-- What the request would publish, and how, when it comes to that. -/
def ResourcePrepared (upload : PendingUpload) (path temp : UploadPath) (t : UploadServer) : Prop :=
  ∃ s₁ plan, admitResource limits faults readings peer resourceId data media s =
      (.ok (.ok upload), s₁) ∧
    preparedResource limits faults readings peer upload data s₁ = (.ok (plan, path, temp), t)

/-- The failure the request meets is one that is taken back: before the record it spares a name that
was taken, and behind the record there is none. -/
def ResourceUndone : Prop :=
  ∀ upload path temp t,
    ResourcePrepared limits faults readings peer resourceId data media s upload path temp t →
    ((faults.writing temp path = true ∨ faults.store .record ≠ none) → s.disk.read path = none) ∧
    (faults.writing temp path = false → faults.store .record = none →
      EventAppends limits faults readings resourceId upload data.length t)

/-- One of the names the request tries is free. -/
def ResourceNameFree : Prop :=
  ∀ upload path temp t,
    ResourcePrepared limits faults readings peer resourceId data media s upload path temp t →
    s.disk.read path = none

end

theorem ResourcePrepared.unique {path path' temp temp' : UploadPath} {t t' : UploadServer}
    (h : ResourcePrepared limits faults readings peer resourceId data media s upload path temp t)
    (h' : ResourcePrepared limits faults readings peer resourceId data media s upload' path' temp' t') :
    upload' = upload ∧ path' = path ∧ temp' = temp ∧ t' = t := by
  obtain ⟨s₁, plan, hadmitted, hprepare⟩ := h
  obtain ⟨s₁', plan', hadmitted', hprepare'⟩ := h'
  obtain ⟨hupload, rfl⟩ := Prod.mk.inj (hadmitted'.symm.trans hadmitted)
  cases hupload
  obtain ⟨hresult, rfl⟩ := Prod.mk.inj (hprepare'.symm.trans hprepare)
  obtain ⟨_, hpaths⟩ := Prod.mk.inj (ok.inj hresult)
  cases hpaths
  exact ⟨rfl, rfl, rfl, rfl⟩

section
variable
  (h : handleUploadResourceWithRoomMediaPolicy limits faults readings peer resourceId data media s =
    (.error e, s'))
include h

/-- Where a request ends in an error. -/
theorem handleResource_error : (Aside s s' ∧ ∀ upload path temp t,
        ¬ResourcePrepared limits faults readings peer resourceId data media s upload path temp t) ∨
      ∃ upload path temp t,
        ResourcePrepared limits faults readings peer resourceId data media s upload path temp t ∧
        (((faults.writing temp path = true ∨ faults.store .record ≠ none) ∧
            (∀ q, s'.disk.read q = if q = path then none else s.disk.read q) ∧
            Aside s { s' with disk := s.disk }) ∨
          (faults.writing temp path = false ∧ faults.store .record = none ∧
            ¬EventAppends limits faults readings resourceId upload data.length t ∧
            s'.disk.read path = some data)) := by
  rcases Act.bind_eq_error.mp h with hadmitted | ⟨admitted, s₁, hadmitted, h⟩
  · refine .inl ⟨admitResource_aside.of_eq hadmitted, ?_⟩
    rintro upload path temp t ⟨s₁, plan, hadmitted', _⟩
    cases hadmitted.symm.trans hadmitted'
  have haside : Aside s s₁ := admitResource_aside.of_eq hadmitted
  cases admitted with
  | error frame => cases h
  | ok upload =>
    rcases Act.bind_eq_error.mp h with hpublish | ⟨stored, s₂, hpublish, h⟩
    · rcases publishResource_error hpublish with hprepare | ⟨plan, path, temp, t, hprepare, hfault,
        hdisk, hrest⟩
      · refine .inl ⟨haside.trans _ _ _ (prepareUpload_aside.of_eq hprepare), ?_⟩
        rintro upload' path temp t ⟨s₁', plan, hadmitted', hprepare'⟩
        obtain ⟨hupload, rfl⟩ := Prod.mk.inj (hadmitted'.symm.trans hadmitted)
        cases hupload
        cases hprepare.symm.trans hprepare'
      · refine .inr ⟨upload, path, temp, t, ⟨s₁, plan, hadmitted, hprepare⟩, .inl ⟨hfault, ?_, ?_⟩⟩
        · rw [← haside.disk]
          exact hdisk
        · rw [← haside.disk]
          exact haside.trans _ _ _ hrest
    · obtain ⟨plan, temp, t, hprepare, hwriting, hrecord, disk, hread, hstored, rfl⟩ :=
        publishResource_ok hpublish
      obtain ⟨hevent, hdisk⟩ := announce_error h
      have hbytes : stored.bytes = data.length := by rw [hstored]
      rw [hbytes] at hevent
      refine .inr ⟨upload, stored.path, temp, t, ⟨s₁, plan, hadmitted, hprepare⟩,
        .inr ⟨hwriting, hrecord, hevent, ?_⟩⟩
      rw [hdisk]
      exact evictFiles_path.trans ((hread stored.path).trans (if_pos rfl))

/-- An upload that arrives whole fails atomically iff its failure is one that is taken back. -/
theorem handleResource_atomic :
    (ResourceUndone limits faults readings peer resourceId data media s →
        NothingPublished [] s s') ∧
      (ResourceNameFree limits faults readings peer resourceId data media s →
        NothingPublished [] s s' →
        ResourceUndone limits faults readings peer resourceId data media s) := by
  constructor
  · intro hundone
    rcases handleResource_error h with haside | ⟨upload, path, temp, t, hprepared, hend⟩
    · exact haside.1.nothing []
    · obtain ⟨hspare, happends⟩ := hundone upload path temp t hprepared
      rcases hend with ⟨hfault, hdisk, hrest⟩ | ⟨hwriting, hrecord, hevent, _⟩
      · refine ⟨fun q _ => ?_, by rintro _ ⟨⟩, hrest.uploads, hrest.events⟩
        rw [hdisk]
        split
        · next hq => rw [hq, hspare hfault]
        · rfl
      · exact absurd (happends hwriting hrecord) hevent
  · intro hfree hnothing upload path temp t hprepared
    have hnone := hfree upload path temp t hprepared
    refine ⟨fun _ => hnone, fun hwriting hrecord => ?_⟩
    rcases handleResource_error h with haside | ⟨upload', path', temp', t', hprepared', hend⟩
    · exact absurd hprepared (haside.2 upload path temp t)
    · obtain ⟨rfl, rfl, rfl, rfl⟩ := hprepared.unique hprepared'
      rcases hend with ⟨hfault, _, _⟩ | ⟨_, _, _, hfile⟩
      · rcases hfault with hfault | hfault
        · rw [hwriting] at hfault
          cases hfault
        · exact absurd hrecord hfault
      · -- the file is there, and there was none
        rw [hnothing.files path' (fun h => by cases h), hnone] at hfile
        cases hfile

end

/-! Staged uploads. -/

section
variable (limits : UploadLimits) (faults : Faults) (readings : Readings) (peer : ServerPeer)
  (resourceId : String) (staged : UploadPath) (incomingBytes : UInt64) (media : Bool)
  (s : UploadServer)

/-- What the commit of a stage would publish, and how, when it comes to that. -/
def StagePrepared (upload : PendingUpload) (path : UploadPath) (t : UploadServer) : Prop :=
  ∃ s₁ plan, admitStage limits faults readings peer resourceId staged incomingBytes media s =
      (.ok (.ok upload), s₁) ∧
    preparedStage limits faults readings peer upload staged incomingBytes s₁ = (.ok (plan, path), t)

/-- The failure the commit meets is one that is taken back. A rename that fails spares every other
file; behind it a name that was taken is lost. -/
def StageUndone : Prop :=
  ∀ upload path t,
    StagePrepared limits faults readings peer resourceId staged incomingBytes media s upload path t →
    faults.file (.rename staged) = false →
    ((faults.file (.syncDir peer.identityHash) = true ∨ faults.store .record ≠ none) →
      s.disk.read path = none ∨ path = staged) ∧
    (faults.file (.syncDir peer.identityHash) = false → faults.store .record = none →
      EventAppends limits faults readings resourceId upload incomingBytes.toNat t)

/-- One of the names the commit tries is free. -/
def StageNameFree : Prop :=
  ∀ upload path t,
    StagePrepared limits faults readings peer resourceId staged incomingBytes media s upload path t →
    s.disk.read path = none

end

theorem StagePrepared.unique {path path' : UploadPath} {t t' : UploadServer}
    (h : StagePrepared limits faults readings peer resourceId staged incomingBytes media s upload path
      t)
    (h' : StagePrepared limits faults readings peer resourceId staged incomingBytes media s upload'
      path' t')
    : upload' = upload ∧ path' = path ∧ t' = t := by
  obtain ⟨s₁, plan, hadmitted, hprepare⟩ := h
  obtain ⟨s₁', plan', hadmitted', hprepare'⟩ := h'
  obtain ⟨hupload, rfl⟩ := Prod.mk.inj (hadmitted'.symm.trans hadmitted)
  cases hupload
  obtain ⟨hresult, rfl⟩ := Prod.mk.inj (hprepare'.symm.trans hprepare)
  cases hresult
  exact ⟨rfl, rfl, rfl⟩

section
variable
  (h : commitChannelStage limits faults readings peer resourceId staged incomingBytes media s =
    (.error e, s'))
include h

/-- Where the commit of a stage ends in an error. -/
theorem commitStage_error : (NothingPublished [staged] s s' ∧ ∀ upload path t,
        ¬StagePrepared limits faults readings peer resourceId staged incomingBytes media s upload path
          t) ∨
      ∃ upload path t bytes,
        StagePrepared limits faults readings peer resourceId staged incomingBytes media s upload path
          t ∧ s.disk.read staged = some bytes ∧
        ((faults.file (.rename staged) = true ∧ NothingPublished [staged] s s') ∨
          (faults.file (.rename staged) = false ∧
            (faults.file (.syncDir peer.identityHash) = true ∨ faults.store .record ≠ none) ∧
            (∀ q, s'.disk.read q = if q = path ∨ q = staged then none else s.disk.read q) ∧
            Aside s { s' with disk := s.disk }) ∨
          (faults.file (.rename staged) = false ∧
            faults.file (.syncDir peer.identityHash) = false ∧ faults.store .record = none ∧
            ¬EventAppends limits faults readings resourceId upload incomingBytes.toNat t ∧
            s'.disk.read path = some bytes)) := by
  rcases Act.bind_eq_error.mp h with hadmitted | ⟨admitted, s₁, hadmitted, h⟩
  · refine .inl ⟨?_, ?_⟩
    · rcases admitStage_eq hadmitted with ⟨haside, _⟩ | ⟨_, _, _, hr, _⟩
      · exact haside.nothing [staged]
      · cases hr
    · rintro upload path t ⟨s₁, plan, hadmitted', _⟩
      cases hadmitted.symm.trans hadmitted'
  cases admitted with
  | error frame => cases h
  | ok upload =>
    have haside : Aside s s₁ := by
      rcases admitStage_eq hadmitted with ⟨haside, _⟩ | ⟨_, _, _, hr, _⟩
      · exact haside
      · cases hr
    rcases Act.bind_eq_error.mp h with hpublish | ⟨stored, s₂, hpublish, h⟩
    · rcases publishStage_error hpublish with hprepare | ⟨plan, path, t, hprepare, hfault, hrest⟩
      · refine .inl ⟨?_, ?_⟩
        · obtain ⟨t, ht, rfl | rfl⟩ := prepareStaged_error hprepare
          · exact (haside.trans _ _ _ ht).nothing [staged]
          · exact (haside.trans _ _ _ ht).nothing_erase staged
        · rintro upload' path t ⟨s₁', plan, hadmitted', hprepare'⟩
          obtain ⟨hupload, rfl⟩ := Prod.mk.inj (hadmitted'.symm.trans hadmitted)
          cases hupload
          cases hprepare.symm.trans hprepare'
      · obtain ⟨_, _, _, _, _, bytes, hbytes, _⟩ := prepareStaged_ok hprepare
        rw [haside.disk] at hbytes hrest hfault
        have hall : Aside s { s' with disk := s.disk } := haside.trans _ _ _ hrest
        refine .inr ⟨upload, path, t, bytes, ⟨s₁, plan, hadmitted, hprepare⟩, hbytes, ?_⟩
        -- the rename failed, or what comes behind it did and the file is removed again
        rcases hfault with ⟨hrename, hdisk⟩ | ⟨hfault, hrename, hdisk⟩
        · refine .inl ⟨hrename, fun q hq => ?_, fun q hq => ?_, hall.uploads, hall.events⟩
          · rw [hdisk, if_neg fun hqs => hq (List.mem_singleton.mpr hqs)]
          · exact .inr ((hdisk q).trans (if_pos (List.mem_singleton.mp hq)))
        · exact .inr (.inl ⟨hrename, hfault, hdisk, hall⟩)
    · -- published: only the event can still fail, and the file stays
      obtain ⟨plan, t, bytes, hprepare, hrename, hsync, hrecord, hbytes, disk, hread, hstored, rfl⟩ :=
        publishStage_ok hpublish
      obtain ⟨hevent, hdisk⟩ := announce_error h
      have hlength : stored.bytes = incomingBytes.toNat := by rw [hstored]
      rw [hlength] at hevent
      refine .inr ⟨upload, stored.path, t, bytes, ⟨s₁, plan, hadmitted, hprepare⟩,
        haside.disk ▸ hbytes, .inr (.inr ⟨hrename, hsync, hrecord, hevent, ?_⟩)⟩
      rw [hdisk]
      exact evictFiles_path.trans ((hread stored.path).trans (if_pos rfl))

/-- The commit of a stage fails atomically iff its failure is one that is taken back. -/
theorem commitStage_atomic :
    (StageUndone limits faults readings peer resourceId staged incomingBytes media s →
        NothingPublished [staged] s s') ∧
      (StageNameFree limits faults readings peer resourceId staged incomingBytes media s →
        NothingPublished [staged] s s' →
        StageUndone limits faults readings peer resourceId staged incomingBytes media s) := by
  constructor
  · intro hundone
    rcases commitStage_error h with hnothing | ⟨upload, path, t, bytes, hprepared, hbytes, hend⟩
    · exact hnothing.1
    · rcases hend with ⟨_, hnothing⟩ | ⟨hrename, hfault, hdisk, hrest⟩ |
        ⟨hrename, hsync, hrecord, hevent, _⟩
      · exact hnothing
      · have hspare := (hundone upload path t hprepared hrename).1 hfault
        refine ⟨fun q hq => ?_, fun q hq => ?_, hrest.uploads, hrest.events⟩
        · have hqs : q ≠ staged := fun hqs => hq (List.mem_singleton.mpr hqs)
          rw [hdisk]
          split
          · next hqp =>
            rcases hqp with rfl | hqp
            · rcases hspare with hnone | hpath
              · exact hnone.symm
              · exact absurd hpath hqs
            · exact absurd hqp hqs
          · rfl
        · exact .inr ((hdisk q).trans (if_pos (.inr (List.mem_singleton.mp hq))))
      · exact absurd ((hundone upload path t hprepared hrename).2 hsync hrecord) hevent
  · intro hfree hnothing upload path t hprepared hrename
    have hnone := hfree upload path t hprepared
    refine ⟨fun _ => .inl hnone, fun hsync hrecord => ?_⟩
    rcases commitStage_error h with hno | ⟨upload', path', t', bytes, hprepared', hbytes, hend⟩
    · exact absurd hprepared (hno.2 upload path t)
    · obtain ⟨rfl, rfl, rfl⟩ := hprepared.unique hprepared'
      rcases hend with ⟨hfault, _⟩ | ⟨_, hfault, _, _⟩ | ⟨_, _, _, _, hfile⟩
      · rw [hrename] at hfault
        cases hfault
      · rcases hfault with hfault | hfault
        · rw [hsync] at hfault
          cases hfault
        · exact absurd hrecord hfault
      · -- the file is there, and there was none
        have hpath : path' ∉ [staged] := by
          intro hin
          rw [List.mem_singleton.mp hin, hbytes] at hnone
          cases hnone
        rw [hnothing.files path' hpath, hnone] at hfile
        cases hfile

end

/-- A request about an upload that ends in an error has published nothing and evicted nothing where
its failure is one that is taken back, and only there as long as it finds a free name. -/
theorem upload_publication_atomic (limits : UploadLimits) (faults : Faults) (readings : Readings)
    (peer : ServerPeer) (resourceId : String) (media : Bool) (s s' : UploadServer)
    (e : ServerError) :
    (∀ data, handleUploadResourceWithRoomMediaPolicy limits faults readings peer resourceId data media
        s = (.error e, s') →
      (ResourceUndone limits faults readings peer resourceId data media s →
        NothingPublished [] s s') ∧
      (ResourceNameFree limits faults readings peer resourceId data media s →
        NothingPublished [] s s' →
        ResourceUndone limits faults readings peer resourceId data media s)) ∧
    (∀ staged incomingBytes, commitChannelStage limits faults readings peer resourceId staged
        incomingBytes media s = (.error e, s') →
      (StageUndone limits faults readings peer resourceId staged incomingBytes media s →
        NothingPublished [staged] s s') ∧
      (StageNameFree limits faults readings peer resourceId staged incomingBytes media s →
        NothingPublished [staged] s s' →
        StageUndone limits faults readings peer resourceId staged incomingBytes media s)) :=
  ⟨fun _ h => handleResource_atomic h, fun _ _ h => commitStage_atomic h⟩

/-! An upload whose event is not appended. -/

/-- A quota of eight bytes; the digest is a stand-in. -/
def eightByteLimits : UploadLimits :=
  { quotaBytes := 8
    maxFileBytes := 8
    cacheAvailable := true
    rateCommandsPerMinute := 0
    historyRetention := RoomHistoryRetentionPolicy.disabled
    sha256 := fun bytes => Vector.ofFn (fun i : Fin 32 => bytes.getD i.val 0)
    humanBytes := fun bytes => toString bytes.toNat ++ " B"
    clamped := by decide }

def Readings.at (unixSeconds : Nat) : Readings :=
  { unixSeconds
    millis := unixSeconds * 1000
    nanos := fun sequence => unixSeconds * 1000000000 + sequence.toNat
    processId := 1
    seen := unixSeconds
    recorded := unixSeconds
    event := ⟨unixSeconds, unixSeconds, unixSeconds⟩ }

def uploader : ServerPeer := { identityHash := [1], displayName := "a", lxmfDestination := none }

/-- One user, in the one room. -/
def uploaderServer : UploadServer :=
  { database := { Database.empty with
      users := ⟨⟨[UserRow.created 1 uploader 0], by decide⟩, by decide⟩
      rooms := ⟨[⟨1⟩], by decide⟩
      roomMembers := ⟨[⟨1, 1⟩], by decide⟩ }
    rooms := ⟨[{ roomId := 1, archived := false, policyBits := 0, uploadMaxFileBytes := none }],
      by decide⟩
    uploads := Sql.Table.empty
    verified := []
    disk := Sql.Table.empty
    pending := Sql.Table.empty
    stages := Sql.Table.empty
    buckets := Sql.Table.empty
    tempSequence := 0 }

/-- Five bytes that were uploaded, and five that were offered. -/
def secondUploadServer : UploadServer :=
  { uploaderServer with
    uploads := ⟨[{ resourceId := "old", roomId := 1, actorUserId := 1, filename := "old"
                   contentType := none, byteLen := 5, path := ⟨[1], "old"⟩, createdAt := 1 }],
      by decide⟩
    disk := ⟨[⟨⟨[1], "old"⟩, [1, 2, 3, 4, 5]⟩], by decide⟩
    pending := ⟨[{ resourceId := "new", identityHash := [1], acceptedAt := 2
                   upload := { roomId := 1, userId := 1, filename := "new", contentType := none
                               incomingBytes := 5 } }], by decide⟩ }

def noEvent : Faults :=
  { Faults.none with store := fun
      | .appendEvent => some .databaseFull
      | _ => none }

/-- The second upload, whose event is not appended. -/
def secondUpload : Except ServerError UploadAnswer × UploadServer :=
  handleUploadResourceWithRoomMediaPolicy eightByteLimits noEvent (Readings.at 3) uploader "new"
    [6, 7, 8, 9, 10] false secondUploadServer

theorem secondUpload_fails : ∃ e, secondUpload = (.error e, secondUpload.2) := by
  have herror : secondUpload.1.toBool = false := by decide +kernel
  rcases h : secondUpload with ⟨r, s⟩
  rw [h] at herror
  cases r with
  | ok answer => cases herror
  | error e => exact ⟨e, rfl⟩

/-- The first upload was evicted. -/
theorem secondUpload_evicts : ¬NothingPublished [] secondUploadServer secondUpload.2 := by
  intro hnothing
  have hgone : secondUpload.2.disk.read ⟨[1], "old"⟩ = none := by decide +kernel
  have hthere : secondUploadServer.disk.read ⟨[1], "old"⟩ = some [1, 2, 3, 4, 5] := by decide +kernel
  rw [hnothing.files _ List.not_mem_nil, hthere] at hgone
  cases hgone

/-- An upload that fails has evicted an earlier one. -/
theorem upload_publication_not_atomic :
    ¬∀ (limits : UploadLimits) (faults : Faults) (readings : Readings) (peer : ServerPeer)
      (resourceId : String) (data : Bytes) (media : Bool) (s s' : UploadServer) (e : ServerError),
      handleUploadResourceWithRoomMediaPolicy limits faults readings peer resourceId data media s =
        (.error e, s') → NothingPublished [] s s' :=
  fun h => secondUpload_fails.elim fun _ hfails =>
    secondUpload_evicts (h _ _ _ _ _ _ _ _ _ _ hfails)

/-- The failure of that upload is not one that is taken back. -/
theorem upload_publication_atomic_second :
    ¬ResourceUndone eightByteLimits noEvent (Readings.at 3) uploader "new" [6, 7, 8, 9, 10] false
      secondUploadServer := by
  obtain ⟨e, hfails⟩ := secondUpload_fails
  intro hundone
  exact secondUpload_evicts (((upload_publication_atomic _ _ _ _ _ _ _ _ e).1 _ hfails).1 hundone)

end Omen.Server
