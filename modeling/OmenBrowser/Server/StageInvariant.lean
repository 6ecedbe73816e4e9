import OmenBrowser.Server.UploadInvariant

/- Channel uploads in parts: what a run keeps of the stages (`server/src/session.rs`).

   A stage counts what it was sent, digests it, and writes it to its file, in three places. A write
   that fails half-way leaves the count and the digest behind the file, so that the file has more
   bytes than were counted, and no later frame can make them fewer; a stage is committed only where
   the file has as many bytes as were counted. -/
namespace Omen.Server
open Wire Sql Ints Omen.Protocol List

variable {limits : UploadLimits} {s s' t : UploadServer} {i : UploadInput} {identity content : Bytes}
  {own : List UploadPath} {resourceId : String} {upload : PendingUpload} {stored : StoredUpload}
  {stage : ChannelUploadStage} {a : Except ServerError UploadAnswer}

/-! Names of files. -/

/-- The name starts with a dot, as the names of staged files do. -/
def Hidden (path : UploadPath) : Prop := path.name.toList.head? = some '.'

theorem stagePath_hidden (identity : Bytes) (sequence : UInt64) :
    Hidden (stagePath identity sequence) := by
  simp only [Hidden, stagePath, String.toList_append, append_assoc]
  rfl

/-- A name that starts with a number is not hidden. -/
theorem not_hidden_of_number {identity : Bytes} (n : Nat) (rest : String) :
    ¬Hidden ⟨identity, toString n ++ rest⟩ := by
  intro h
  have hdigits : (toString n).toList = Nat.toDigits 10 n := by
    rw [Nat.toString_eq_repr, Nat.toList_repr]
  unfold Hidden at h
  rw [String.toList_append, hdigits] at h
  cases hlist : Nat.toDigits 10 n with
  | nil =>
    have hne : (toString n).toList ≠ [] := by
      rw [Nat.toString_eq_repr]
      exact fun hnil => Nat.repr_ne_empty (String.toList_eq_nil_iff.mp hnil)
    exact hne (hdigits.trans hlist)
  | cons d digits =>
    rw [hlist] at h
    have hdot : d = '.' := by simpa using h
    have hdigit : d.isDigit := Nat.isDigit_of_mem_toDigits (by decide) (by decide)
      (hlist ▸ mem_cons_self)
    rw [hdot] at hdigit
    cases hdigit

/-- A hidden name is picked only where it is free. -/
theorem nextUploadPath_hidden {taken : UploadPath → Bool} {hint : String} {stamp : Nat}
    (h : Hidden (nextUploadPath taken identity hint stamp)) :
    taken (nextUploadPath taken identity hint stamp) = false := by
  unfold nextUploadPath at h ⊢
  simp only at h ⊢
  split at h
  · next hfree =>
    rw [if_pos hfree]
    simpa using hfree
  · next htaken =>
    rw [if_neg htaken]
    cases hfound : ((range' 1 1000).map (fun index =>
      (⟨identity, s!"{stamp}-{index}-{sanitizeUploadFilename hint}"⟩ : UploadPath))).find?
      (fun candidate => !taken candidate) with
    | some path =>
      have hfree := find?_some hfound
      simpa using hfree
    | none =>
      rw [hfound, Option.getD_none, String.append_assoc] at h
      exact absurd h (not_hidden_of_number stamp _)

/-! What a run keeps of the stages. -/

/-- The file of a stage holds what the stage was sent, or more bytes than that. -/
def ChannelUploadStage.Holds (stage : ChannelUploadStage) (file : Bytes) : Prop :=
  file = stage.hashed ∨ stage.hashed.length < file.length

/-- The limits on the stages, and what each has counted. -/
structure StagesBounded (s : UploadServer) : Prop where
  room : s.stages.rows.length ≤ channelUploadMaxItems
  roomOnLink : ∀ linkId, s.stages.rows.countP (fun a => a.key.1 == linkId) ≤
    channelUploadMaxItemsPerLink
  bounded : ∀ a ∈ s.stages.rows, a.writtenBytes ≤ a.expectedBytes

/-- Every stage has a file of its own that no row of the index names, with what it was sent. A row
with a hidden name has its file, which is no other row's: a stage could take its place. -/
structure StagesKept (s : UploadServer) : Prop where
  bounds : StagesBounded s
  counted : ∀ a ∈ s.stages.rows, a.hashed.length = a.writtenBytes.toNat
  hidden : ∀ a ∈ s.stages.rows, Hidden a.path
  paths : ∀ a ∈ s.stages.rows, ∀ b ∈ s.stages.rows, a.path = b.path → a = b
  files : ∀ a ∈ s.stages.rows, ∃ file, s.disk.read a.path = some file ∧ a.Holds file
  apart : ∀ r ∈ s.uploads.rows, ∀ a ∈ s.stages.rows, r.path ≠ a.path
  hiddenRows : ∀ r ∈ s.uploads.rows, Hidden r.path → s.disk.read r.path ≠ none
  hiddenPaths : ∀ r ∈ s.uploads.rows, ∀ q ∈ s.uploads.rows, Hidden r.path → r.path = q.path → r = q

theorem StagesBounded.sublist (h : StagesBounded s)
    (hstages : s'.stages.rows.Sublist s.stages.rows) : StagesBounded s' where
  room := Nat.le_trans hstages.length_le h.room
  roomOnLink linkId := Nat.le_trans (hstages.countP_le) (h.roomOnLink linkId)
  bounded a ha := h.bounded a (hstages.subset ha)

theorem sublist_deleteWhere (t : Table ChannelUploadStage.key) (gone : ChannelUploadStage → Bool) :
    (t.deleteWhere gone).rows.Sublist t.rows := filter_sublist

namespace StagesKept

/-- The files and the tables are all there is to it. -/
theorem of_eq (h : StagesKept s) (huploads : s'.uploads = s.uploads) (hstages : s'.stages = s.stages)
    (hdisk : s'.disk = s.disk) : StagesKept s' := by
  constructor
  · exact h.bounds.sublist (by rw [hstages])
  · rw [hstages]; exact h.counted
  · rw [hstages]; exact h.hidden
  · rw [hstages]; exact h.paths
  · rw [hstages, hdisk]; exact h.files
  · rw [huploads, hstages]; exact h.apart
  · rw [huploads, hdisk]; exact h.hiddenRows
  · rw [huploads]; exact h.hiddenPaths

/-- Some stages are closed, and files go that are neither a hidden row's nor an open stage's. -/
theorem close (h : StagesKept s) (huploads : s'.uploads = s.uploads)
    (hstages : s'.stages.rows.Sublist s.stages.rows)
    (hrows : ∀ r ∈ s.uploads.rows, Hidden r.path → s'.disk.read r.path = s.disk.read r.path)
    (hfiles : ∀ a ∈ s'.stages.rows, s'.disk.read a.path = s.disk.read a.path) : StagesKept s' where
  bounds := h.bounds.sublist hstages
  counted a ha := h.counted a (hstages.subset ha)
  hidden a ha := h.hidden a (hstages.subset ha)
  paths a ha b hb := h.paths a (hstages.subset ha) b (hstages.subset hb)
  files a ha := by
    rw [hfiles a ha]
    exact h.files a (hstages.subset ha)
  apart r hr a ha := by
    rw [huploads] at hr
    exact h.apart r hr a (hstages.subset ha)
  hiddenRows r hr hhidden := by
    rw [huploads] at hr
    rw [hrows r hr hhidden]
    exact h.hiddenRows r hr hhidden
  hiddenPaths r hr q hq := by
    rw [huploads] at hr hq
    exact h.hiddenPaths r hr q hq

theorem opened {linkId : LinkId} {peer : ServerPeer} {totalBytes : UInt64} {path : UploadPath}
    (h : StagesKept s) (hopens : Opens limits linkId peer resourceId totalBytes s s' path) :
    StagesKept s' := by
  have hfree : s.disk.read path = none := read_of_not_taken hopens.free
  obtain ⟨sequence, hnamed⟩ := hopens.named
  have hhidden : Hidden path := hnamed ▸ stagePath_hidden _ _
  have hread : ∀ q, s'.disk.read q = if q = path then some [] else s.disk.read q := by
    intro q
    rw [hopens.disk, Disk.read_put]
  have huploads : s'.uploads = s.uploads := hopens.rest.uploads
  -- a hidden path that an upload has is a file that is there, and this one is free
  have hrow : ∀ r ∈ s.uploads.rows, r.path ≠ path :=
    fun r hr hpath => h.hiddenRows r hr (hpath ▸ hhidden) (hpath ▸ hfree)
  have hstage : ∀ a ∈ s.stages.rows, a.path ≠ path := by
    intro a ha hpath
    obtain ⟨file, hfile, _⟩ := h.files a ha
    rw [hpath, hfree] at hfile
    cases hfile
  refine ⟨⟨?_, fun linkId' => ?_, fun a ha => ?_⟩, fun a ha => ?_, fun a ha => ?_, ?_, fun a ha => ?_,
    ?_, fun r hr hh => ?_, ?_⟩
  · rw [hopens.rows, length_cons]
    exact hopens.room
  · rw [hopens.rows]
    by_cases hlink : (linkId == linkId') = true
    · obtain rfl := beq_iff_eq.mp hlink
      have hlt := hopens.roomOnLink
      rw [countP_cons_of_pos (by exact hlink)]
      exact hlt
    · rw [countP_cons_of_neg (by exact hlink)]
      exact h.bounds.roomOnLink linkId'
  · rcases hopens.mem_stages.mp ha with rfl | ha
    · exact UInt64.le_iff_toNat_le.mpr (Nat.zero_le _)
    · exact h.bounds.bounded a ha
  · rcases hopens.mem_stages.mp ha with rfl | ha
    · rfl
    · exact h.counted a ha
  · rcases hopens.mem_stages.mp ha with rfl | ha
    · exact hhidden
    · exact h.hidden a ha
  · intro a ha b hb hpath
    rcases hopens.mem_stages.mp ha with rfl | ha
    · rcases hopens.mem_stages.mp hb with rfl | hb
      · rfl
      · exact absurd hpath.symm (hstage b hb)
    · rcases hopens.mem_stages.mp hb with rfl | hb
      · exact absurd hpath (hstage a ha)
      · exact h.paths a ha b hb hpath
  · rcases hopens.mem_stages.mp ha with rfl | ha
    · refine ⟨[], ?_, .inl rfl⟩
      show s'.disk.read path = some []
      rw [hread, if_pos rfl]
    · rw [hread, if_neg (hstage a ha)]
      exact h.files a ha
  · intro r hr a ha
    rw [huploads] at hr
    rcases hopens.mem_stages.mp ha with rfl | ha
    · exact hrow r hr
    · exact h.apart r hr a ha
  · rw [huploads] at hr
    rw [hread, if_neg (hrow r hr)]
    exact h.hiddenRows r hr hh
  · rw [huploads]
    exact h.hiddenPaths

/-- The bytes a stage takes are counted. -/
theorem advance_counted {bytes : Bytes} {offset : UInt64}
    (htakes : stage.Takes identity offset bytes)
    (hcounted : stage.hashed.length = stage.writtenBytes.toNat) :
    (stage.advance bytes).writtenBytes.toNat = stage.writtenBytes.toNat + bytes.length ∧
      (stage.advance bytes).writtenBytes ≤ stage.expectedBytes ∧
      (stage.advance bytes).hashed.length = (stage.advance bytes).writtenBytes.toNat := by
  obtain ⟨_, _, rfl, hfit⟩ := htakes
  have hexpected := stage.expectedBytes.toNat_lt
  have hlength : (UInt64.ofNat bytes.length).toNat = bytes.length := by
    rw [UInt64.toNat_ofNat']
    exact Nat.mod_eq_of_lt (by omega)
  have hsum : (stage.advance bytes).writtenBytes.toNat =
      stage.writtenBytes.toNat + bytes.length := by
    show (stage.writtenBytes + UInt64.ofNat bytes.length).toNat = _
    rw [UInt64.toNat_add, hlength]
    exact Nat.mod_eq_of_lt (by omega)
  refine ⟨hsum, UInt64.le_iff_toNat_le.mpr (hsum ▸ hfit), ?_⟩
  rw [hsum, ← hcounted]
  exact length_append

/-- Bytes go into the file of a stage, which counts them all or none. -/
theorem extended {bytes : Bytes} (h : StagesKept s) (hstage : stage ∈ s.stages.rows)
    (f : ChannelUploadStage → ChannelUploadStage)
    (hrows : s'.stages.rows = s.stages.rows.map (fun a => if a.key == stage.key then f a else a))
    (hkey : ∀ a, (f a).key = a.key) (hpath : ∀ a, (f a).path = a.path)
    (hcounts : (f stage).writtenBytes ≤ (f stage).expectedBytes ∧
      (f stage).hashed.length = (f stage).writtenBytes.toNat)
    (hholds : ∀ file, stage.Holds file → (f stage).Holds (file ++ bytes))
    (huploads : s'.uploads = s.uploads) (hdisk : s'.disk = s.disk.extend stage.path bytes) :
    StagesKept s' := by
  have hread : ∀ q, s'.disk.read q =
      if q = stage.path then (s.disk.read stage.path).map (· ++ bytes) else s.disk.read q := by
    intro q
    rw [hdisk, Disk.read_extend]
  have hmem : ∀ a ∈ s'.stages.rows, a = f stage ∨ (a ∈ s.stages.rows ∧ a ≠ stage) := by
    intro a ha
    rw [hrows] at ha
    obtain ⟨b, hb, rfl⟩ := mem_map.mp ha
    by_cases hk : (b.key == stage.key) = true
    · rw [if_pos hk, stage_of_key hstage hb hk]
      exact .inl rfl
    · rw [if_neg hk]
      refine .inr ⟨hb, fun heq => hk ?_⟩
      rw [heq]
      exact beq_self_eq_true _
  have hkeys : ∀ a, (if a.key == stage.key then f a else a).key = a.key := by
    intro a
    split
    · exact hkey a
    · rfl
  -- each stage stands where one stood before, and only the extended one has changed
  have hold : ∀ a ∈ s'.stages.rows, ∃ b ∈ s.stages.rows, a.path = b.path ∧ (b = stage → a = f stage) ∧
      (b ≠ stage → a = b) := by
    intro a ha
    rcases hmem a ha with rfl | ⟨ha, hne⟩
    · exact ⟨stage, hstage, hpath stage, fun _ => rfl, fun hne => absurd rfl hne⟩
    · exact ⟨a, ha, rfl, fun heq => absurd heq hne, fun _ => rfl⟩
  refine ⟨⟨?_, fun linkId => ?_, fun a ha => ?_⟩, fun a ha => ?_, fun a ha => ?_, ?_, fun a ha => ?_,
    ?_, fun r hr hh => ?_, ?_⟩
  · rw [hrows, length_map]
    exact h.bounds.room
  · rw [hrows, countP_map]
    refine Nat.le_trans (Nat.le_of_eq (countP_congr fun a _ => ?_)) (h.bounds.roomOnLink linkId)
    simp only [Function.comp, hkeys]
  · rcases hmem a ha with rfl | ⟨ha, _⟩
    · exact hcounts.1
    · exact h.bounds.bounded a ha
  · rcases hmem a ha with rfl | ⟨ha, _⟩
    · exact hcounts.2
    · exact h.counted a ha
  · obtain ⟨b, hb, hpathb, _⟩ := hold a ha
    rw [hpathb]
    exact h.hidden b hb
  · intro a ha b hb hab
    obtain ⟨a', ha', hpatha, hafter, hasame⟩ := hold a ha
    obtain ⟨b', hb', hpathb, hbfter, hbsame⟩ := hold b hb
    have hsame : a' = b' := h.paths a' ha' b' hb' (by rw [← hpatha, ← hpathb, hab])
    by_cases hs : a' = stage
    · rw [hafter hs, hbfter (hsame ▸ hs)]
    · rw [hasame hs, hbsame (hsame ▸ hs), hsame]
  · rcases hmem a ha with rfl | ⟨ha, hne⟩
    · obtain ⟨file, hfile, hfileHolds⟩ := h.files stage hstage
      refine ⟨file ++ bytes, ?_, hholds file hfileHolds⟩
      rw [hpath, hread, if_pos rfl, hfile]
      rfl
    · -- no two stages share a path, so the other files are as they were
      rw [hread, if_neg fun hp => hne (h.paths a ha stage hstage hp)]
      exact h.files a ha
  · intro r hr a ha
    rw [huploads] at hr
    obtain ⟨b, hb, hpathb, _⟩ := hold a ha
    rw [hpathb]
    exact h.apart r hr b hb
  · rw [huploads] at hr
    rw [hread, if_neg (h.apart r hr stage hstage)]
    exact h.hiddenRows r hr hh
  · rw [huploads]
    exact h.hiddenPaths

/-- Where a publication starts, the file it comes from is no row's and no open stage's. -/
theorem committing (h : StagesKept s) (hc : Committing s own t) :
    StagesKept t ∧ t.disk = s.disk ∧ t.uploads = s.uploads ∧
      (∀ r ∈ t.uploads.rows, r.path ∉ own) ∧ ∀ a ∈ t.stages.rows, a.path ∉ own := by
  rcases hc with ⟨rfl, rfl⟩ | ⟨stage, hstage, rfl, rfl⟩
  · exact ⟨h, rfl, rfl, fun _ _ => not_mem_nil, fun _ _ => not_mem_nil⟩
  · refine ⟨h.close rfl (sublist_deleteWhere _ _) (fun _ _ _ => rfl) fun _ _ => rfl, rfl, rfl, ?_, ?_⟩
    · intro r hr hown
      exact h.apart r hr stage hstage (mem_singleton.mp hown)
    · intro a ha hown
      obtain ⟨ha, hkey⟩ := Table.mem_deleteWhere.mp ha
      obtain rfl := h.paths a ha stage hstage (mem_singleton.mp hown)
      rw [beq_self_eq_true] at hkey
      cases hkey

/-- A hidden file that is there is not the name a request picks. -/
theorem ne_picked {hint : String} {stamp : Nat} {q : UploadPath} (hhidden : Hidden q)
    (hfile : t.disk.read q ≠ none) : q ≠ nextUploadPath t.taken identity hint stamp := by
  intro hq
  rw [hq] at hhidden hfile
  exact hfile (read_of_not_taken (nextUploadPath_hidden hhidden))

section
variable (h : StagesKept t) (hrows : ∀ r ∈ t.uploads.rows, r.path ∉ own)
  (hstages : ∀ a ∈ t.stages.rows, a.path ∉ own)
include h hrows hstages

theorem takenBack (hback : TakenBack identity own upload i.readings a t s') : StagesKept s' := by
  obtain ⟨gone, hread, hgone⟩ := hback.files
  have hsame : ∀ q, q ∉ own → Hidden q → t.disk.read q ≠ none →
      s'.disk.read q = t.disk.read q := by
    intro q hown hhidden hfile
    rw [hread, if_neg]
    intro hq
    rcases hgone q hq with hq | hq
    · exact hown hq
    · exact ne_picked hhidden hfile hq
  have hstages' : s'.stages = t.stages := hback.rest.stages
  refine h.close hback.rest.uploads (by rw [hstages']) (fun r hr hh => ?_) fun a ha => ?_
  · exact hsame r.path (hrows r hr) hh (h.hiddenRows r hr hh)
  · rw [hstages'] at ha
    obtain ⟨file, hfile, _⟩ := h.files a ha
    exact hsame a.path (hstages a ha) (h.hidden a ha) (by rw [hfile]; exact Option.some_ne_none _)

theorem published (hrecords : i.faults.store .removeEvicted = none)
    (hdone : UploadDone limits i.faults i.readings identity own resourceId upload content stored t s') :
    StagesKept s' := by
  have hpicked : ∀ q, Hidden q → t.disk.read q ≠ none → q ≠ stored.path := by
    intro q hhidden hfile
    rw [hdone.path]
    exact ne_picked hhidden hfile
  have hfile : ∀ a ∈ t.stages.rows, t.disk.read a.path ≠ none := by
    intro a ha
    obtain ⟨file, hfile, _⟩ := h.files a ha
    rw [hfile]
    exact Option.some_ne_none _
  have hread : ∀ q, q ∉ stored.evicted → q ≠ stored.path → q ∉ own →
      s'.disk.read q = t.disk.read q := by
    intro q hevicted hpath hown
    rw [hdone.files, if_neg hevicted, if_neg hpath, if_neg hown]
  have hstage : ∀ a ∈ s'.stages.rows, a ∈ t.stages.rows ∧ s'.disk.read a.path = t.disk.read a.path := by
    intro a ha
    rw [hdone.stages] at ha
    refine ⟨ha, hread a.path ?_ (hpicked _ (h.hidden a ha) (hfile a ha)) (hstages a ha)⟩
    intro hevicted
    obtain ⟨_, r, hr, _, hpath⟩ := hdone.of_evicted hevicted
    exact h.apart r hr a ha hpath
  constructor
  · exact h.bounds.sublist (by rw [hdone.stages])
  · exact fun a ha => h.counted a (hstage a ha).1
  · exact fun a ha => h.hidden a (hstage a ha).1
  · exact fun a ha b hb => h.paths a (hstage a ha).1 b (hstage b hb).1
  · intro a ha
    rw [(hstage a ha).2]
    exact h.files a (hstage a ha).1
  · intro r hr a ha
    rcases (hdone.mem_uploads hrecords).mp hr with rfl | ⟨hr, _⟩
    · exact (hpicked _ (h.hidden a (hstage a ha).1) (hfile a (hstage a ha).1)).symm
    · exact h.apart r hr a (hstage a ha).1
  · intro r hr hhidden
    rcases (hdone.mem_uploads hrecords).mp hr with rfl | ⟨hr, _, hkeep⟩
    · show s'.disk.read stored.path ≠ none
      rw [hdone.files, if_neg fun hq => (hdone.of_evicted hq).1 rfl, if_pos rfl]
      exact Option.some_ne_none _
    · -- the row stays, so its file was not evicted for another row
      rw [hread r.path ?_ (hpicked _ hhidden (h.hiddenRows r hr hhidden)) (hrows r hr)]
      · exact h.hiddenRows r hr hhidden
      · intro hevicted
        obtain ⟨_, q, hq, hactor, hpath⟩ := hdone.of_evicted hevicted
        obtain rfl := h.hiddenPaths r hr q hq hhidden hpath.symm
        exact hkeep ⟨hactor, hevicted⟩
  · intro r hr q hq hhidden hpath
    rcases (hdone.mem_uploads hrecords).mp hr with rfl | ⟨hr, _⟩
    · rcases (hdone.mem_uploads hrecords).mp hq with rfl | ⟨hq, _⟩
      · rfl
      · rw [hpath] at hhidden
        exact absurd hpath.symm (hpicked _ hhidden (h.hiddenRows q hq hhidden))
    · rcases (hdone.mem_uploads hrecords).mp hq with rfl | ⟨hq, _⟩
      · exact absurd hpath (hpicked _ hhidden (h.hiddenRows r hr hhidden))
      · exact h.hiddenPaths r hr q hq hhidden hpath

end

end StagesKept

theorem UploadEffect.stagesKept (h : StagesKept s) (hrecords : i.faults.store .removeEvicted = none)
    (heffect : UploadEffect limits i s a s') : StagesKept s' := by
  cases heffect with
  | aside haside _ => exact h.of_eq haside.uploads haside.stages haside.disk
  | elsewhere rooms database => exact h.of_eq rfl rfl rfl
  | opened hopens => exact h.opened hopens
  | @wrote stage _ bytes _ hstage htakes =>
    obtain ⟨_, hbounded, hcounted⟩ := StagesKept.advance_counted htakes (h.counted stage hstage)
    refine h.extended hstage (·.advance bytes) rfl (fun _ => rfl) (fun _ => rfl)
      ⟨hbounded, hcounted⟩ (fun file hfile => ?_) rfl rfl
    -- what was counted is in the file, or the file has more
    rcases hfile with rfl | hmore
    · exact .inl rfl
    · refine .inr ?_
      show (stage.hashed ++ bytes).length < _
      rw [length_append, length_append]
      omega
  -- bytes may be in the file that the stage does not count
  | @brokeOff stage bytes _ hstage _ =>
    have hrows : s.stages.rows = s.stages.rows.map (fun a => if a.key == stage.key then id a else a) := by
      simp
    refine h.extended hstage id hrows (fun _ => rfl) (fun _ => rfl)
      ⟨h.bounds.bounded stage hstage, h.counted stage hstage⟩ (fun file hfile => ?_) rfl rfl
    · rcases hfile with rfl | hmore
      · cases bytes with
        | nil => exact .inl (append_nil _)
        | cons b bytes =>
          refine .inr ?_
          rw [length_append, length_cons]
          exact Nat.lt_add_of_pos_right (Nat.succ_pos _)
      · refine .inr ?_
        rw [length_append]
        exact Nat.lt_add_right _ hmore
  | @dropped gone _ _ _ hstages hfiles hrest =>
    refine h.close hrest.uploads (by rw [hstages]; exact sublist_deleteWhere _ _) (fun r hr _ => ?_)
      fun a ha => ?_
    · rw [hfiles, if_neg]
      rintro ⟨b, hb, _, hpath⟩
      exact h.apart r hr b hb hpath.symm
    · rw [hstages] at ha
      obtain ⟨ha, hkeep⟩ := Table.mem_deleteWhere.mp ha
      rw [hfiles, if_neg]
      rintro ⟨b, hb, hgone, hpath⟩
      rw [h.paths b hb a ha hpath, hkeep] at hgone
      cases hgone
  | left hstage hdisk hstages hrest =>
    refine h.close hrest.uploads (by rw [hstages]; exact sublist_deleteWhere _ _)
      (fun r _ _ => by rw [hdisk]) fun a _ => by rw [hdisk]
  | takenBack hc _ hback =>
    obtain ⟨hkept, _, _, hrows, hstages⟩ := h.committing hc
    exact hkept.takenBack hrows hstages hback
  | published hc _ _ _ hpublished =>
    obtain ⟨hkept, _, _, hrows, hstages⟩ := h.committing hc
    obtain ⟨stored, s₁, hdone, hend⟩ := hpublished
    have hkept₁ : StagesKept s₁ := hkept.published hrows hstages hrecords hdone
    rcases hend with ⟨_, _, rfl⟩ | ⟨event, _, database, _, rfl⟩
    · exact hkept₁
    · exact hkept₁.of_eq rfl rfl rfl
  | restarted => exact h.close rfl (nil_sublist _) (fun _ _ _ => rfl) nofun

end Omen.Server
