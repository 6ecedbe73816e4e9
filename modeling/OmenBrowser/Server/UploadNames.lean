import OmenBrowser.Lib.Parsing
import OmenBrowser.Server.StageInvariant

/- The names uploads are published under (`server/src/upload.rs`).

   A hint is trimmed of dots before it is trimmed of underscores, so dots that stand behind leading
   underscores end up in front. Such a name is a hidden one, and it may be one that the scan of the
   directory passes over (`hidden_name`). -/
namespace Omen.Server
open Wire Text List

-- `∀ c ∈ chars` is decided along the list, not over every character there is
attribute [local instance (high)] decidableBAll

variable {cs : List Char} {c : Char} {hint : String} {identity : Bytes}

/-! Names. -/

/-- The hint with the characters that may stand in a name, and an underscore for any other. -/
def plainHint (filenameHint : String) : List Char :=
  (trimChars ((fileName filenameHint).getD filenameHint).toList).map
    (fun c => if isPlainNameChar c then c else '_')

/-- Behind the leading dots, and the underscores behind them, stands a dot that is not trimmed from
the end. -/
def DotBehind (cs : List Char) : Prop :=
  let rest := (cs.dropWhile (· == '.')).dropWhile (· == '_')
  rest.head? = some '.' ∧ ∃ c ∈ rest, (c == '.') = false

theorem head?_cleaned :
    (trimMatches '_' (trimMatches '.' cs)).head? = some '.' ↔ DotBehind cs := by
  have htrim : ∀ (c : Char) (cs : List Char),
      trimMatches c cs = (cs.dropWhile (· == c)).rdropWhile (· == c) := fun _ _ => rfl
  rw [htrim, htrim, dropWhile_rdropWhile, head?_rdropWhile, head?_rdropWhile, DotBehind,
    and_iff_left_iff_imp]
  rintro ⟨hhead, hrest⟩
  exact ⟨'.', mem_of_mem_head? (head?_rdropWhile.mpr ⟨hhead, hrest⟩), rfl⟩

theorem sanitize_hidden :
    (sanitizeUploadFilename hint).toList.head? = some '.' ↔ DotBehind (plainHint hint) := by
  rw [← head?_cleaned]
  show (if trimMatches '_' (trimMatches '.' (plainHint hint)) = [] then "upload.bin" else
    String.ofList ((trimMatches '_' (trimMatches '.' (plainHint hint))).take 96)).toList.head? = _ ↔ _
  split
  · next hempty =>
    rw [hempty]
    decide
  · rw [String.toList_ofList, head?_take, if_neg (by decide)]

theorem mem_trimMatches {d : Char} (h : c ∈ trimMatches d cs) : c ∈ cs := by
  have hreverse := mem_reverse.mp h
  have hleft := mem_reverse.mp ((dropWhile_sublist _).subset hreverse)
  exact (dropWhile_sublist _).subset hleft

theorem plainHint_plain (h : c ∈ plainHint hint) : isPlainNameChar c = true := by
  obtain ⟨d, _, rfl⟩ := mem_map.mp h
  split
  · next hd => exact hd
  · rfl

/-- Whatever the hint, a name is there, of limited length and of plain characters. -/
theorem sanitize_shape (hint : String) : sanitizeUploadFilename hint ≠ "" ∧
    (sanitizeUploadFilename hint).toList.length ≤ 96 ∧
    ∀ c ∈ (sanitizeUploadFilename hint).toList, isPlainNameChar c = true := by
  unfold sanitizeUploadFilename
  simp only
  split
  · decide
  · next hne =>
    refine ⟨fun h => hne ?_, ?_, fun c hc => ?_⟩
    · have htake := String.ofList_eq_empty_iff.mp h
      exact (take_eq_nil_iff.mp htake).resolve_left (by decide)
    · rw [String.toList_ofList]
      exact length_take_le _ _
    · rw [String.toList_ofList] at hc
      exact plainHint_plain (mem_trimMatches (mem_trimMatches (mem_of_mem_take hc)))

/-! Files. -/

/-- The files a scan of the identity's directory counts, in any order. -/
def uploadCacheEntries (disk : Disk UploadPath) (identity : Bytes) : List (UploadPath × Nat) :=
  (disk.rows.filter (fun file => file.path.identity = identity ∧
    ¬".omen-upload-".toList <+: file.path.name.toList)).map
      (fun file => (file.path, file.bytes.length))

/-- A file is found, under its name, directly in the directory, and counted there. -/
structure CountedChild (identity : Bytes) (path : UploadPath) : Prop where
  inside : path.identity = identity
  notSelf : path.name ≠ "."
  notAbove : path.name ≠ ".."
  plain : ∀ c ∈ path.name.toList, isPlainNameChar c = true
  counted : ∀ disk bytes, Disk.read disk path = some bytes →
    (path, bytes.length) ∈ uploadCacheEntries disk identity

structure NamesSafely (hint : String) : Prop where
  nonempty : sanitizeUploadFilename hint ≠ ""
  length : (sanitizeUploadFilename hint).toList.length ≤ 96
  plain : ∀ c ∈ (sanitizeUploadFilename hint).toList, isPlainNameChar c = true
  notSelf : sanitizeUploadFilename hint ≠ "."
  notAbove : sanitizeUploadFilename hint ≠ ".."
  notHidden : (sanitizeUploadFilename hint).toList.head? ≠ some '.'
  notReserved : ¬".omen-upload-".toList <+: (sanitizeUploadFilename hint).toList
  published : ∀ (s : UploadServer) identity stamp,
    CountedChild identity (nextUploadPath s.taken identity hint stamp)

theorem head?_reserved (h : ".omen-upload-".toList <+: cs) : cs.head? = some '.' := by
  obtain ⟨rest, rfl⟩ := h
  rfl

theorem countedChild {name : String} (hhidden : ¬name.toList.head? = some '.')
    (hplain : ∀ c ∈ name.toList, isPlainNameChar c = true) :
    CountedChild identity ⟨identity, name⟩ where
  inside := rfl
  notSelf h := hhidden (by rw [show name = "." from h]; rfl)
  notAbove h := hhidden (by rw [show name = ".." from h]; rfl)
  plain := hplain
  counted disk bytes h := by
    refine mem_map.mpr ⟨⟨⟨identity, name⟩, bytes⟩, mem_filter.mpr ⟨Disk.read_eq_some.mp h, ?_⟩, rfl⟩
    exact decide_eq_true ⟨rfl, fun hreserved => hhidden (head?_reserved hreserved)⟩

theorem plain_number (n : Nat) (h : c ∈ (toString n).toList) : isPlainNameChar c = true := by
  rw [Nat.toString_eq_repr] at h
  simp [isPlainNameChar, Char.isAlphanum, isDigit_repr h]

/-- A name that is tried is the sanitized one, or that behind a number. -/
theorem nextUploadPath_name (taken : UploadPath → Bool) (hint : String) (stamp : Nat) :
    nextUploadPath taken identity hint stamp = ⟨identity, sanitizeUploadFilename hint⟩ ∨
      ∃ rest : String, (∀ c ∈ rest.toList, isPlainNameChar c = true) ∧
        nextUploadPath taken identity hint stamp = ⟨identity, toString stamp ++ rest⟩ := by
  have hplain := (sanitize_shape hint).2.2
  unfold nextUploadPath
  simp only
  split
  · exact .inl rfl
  · refine .inr ?_
    cases hfound : ((range' 1 1000).map (fun index =>
      (⟨identity, s!"{stamp}-{index}-{sanitizeUploadFilename hint}"⟩ : UploadPath))).find?
      (fun candidate => !taken candidate) with
    | none =>
      refine ⟨"-" ++ sanitizeUploadFilename hint, fun c hc => ?_, ?_⟩
      · rw [String.toList_append, mem_append] at hc
        rcases hc with hc | hc
        · rw [mem_singleton.mp hc]
          rfl
        · exact hplain c hc
      · rw [Option.getD_none, String.append_assoc]
        rfl
    | some path =>
      obtain ⟨index, _, rfl⟩ := mem_map.mp (mem_of_find?_eq_some hfound)
      refine ⟨"-" ++ (toString index ++ ("-" ++ sanitizeUploadFilename hint)), fun c hc => ?_, ?_⟩
      · simp only [String.toList_append, mem_append] at hc
        rcases hc with hc | hc | hc | hc
        · rw [mem_singleton.mp hc]
          rfl
        · exact plain_number index hc
        · rw [mem_singleton.mp hc]
          rfl
        · exact hplain c hc
      · simp only [Option.getD_some, String.append_assoc]
        rfl

/-- Names are safe iff no dot stands behind the underscores in front. -/
theorem upload_names_safe_iff (hint : String) :
    NamesSafely hint ↔ ¬DotBehind (plainHint hint) := by
  rw [← sanitize_hidden]
  refine ⟨fun h => h.notHidden, fun hhidden => ?_⟩
  obtain ⟨hnonempty, hlength, hplain⟩ := sanitize_shape hint
  exact {
    nonempty := hnonempty
    length := hlength
    plain := hplain
    notSelf := fun h => hhidden (by rw [h]; rfl)
    notAbove := fun h => hhidden (by rw [h]; rfl)
    notHidden := hhidden
    notReserved := fun h => hhidden (head?_reserved h)
    published := fun s identity stamp => by
      rcases nextUploadPath_name s.taken hint stamp with hnext | ⟨rest, hrest, hnext⟩
      · rw [hnext]
        exact countedChild hhidden hplain
      · rw [hnext]
        refine countedChild (@not_hidden_of_number identity stamp rest) fun c hc => ?_
        rw [String.toList_append, mem_append] at hc
        rcases hc with hc | hc
        · exact plain_number stamp hc
        · exact hrest c hc }

/-- A hint that is published under a name the scan of the directory passes over. -/
theorem hidden_name : ¬NamesSafely "_.omen-upload-note.txt" :=
  fun h => h.notReserved (by decide +kernel)

end Omen.Server
