import ContentImport.Archive.Guard
import ContentImport.Proofs.Number.Rounding
import ContentImport.Proofs.Outcome

/-!
# What a guard hands over

* Data are copied completely unless their ratio is rejected (`copy_eq_ok`, `copy_eq_error`). It is
  looked at after every chunk, but what it rejects at some size it rejects at any greater one too
  (`exceedsRatio_mono`), so the full size alone decides, however the data are cut into chunks.
* One entry is visited: either there is a reason to reject it, or the guard has gone on by it
  (`visit_cases`). From entry to entry the guard goes on to the next file, or to where the archive
  ends or an entry is rejected (`nextOf_cases`).
* Files are handed over by going on to the next one until there is none (`forEachOf_eq_next`). So
  they are the files of the part at the beginning of the archive that the thresholds allow
  (`forEachOf_eq`).
-/

namespace ContentImport

/-! ## Archives without faults -/

/-- Whether an entry can be read: its record, and if it is not a folder all of its data. -/
def ArchiveEntry.IsReadable (e : ArchiveEntry) : Prop :=
  e.content ≠ .locked ∧ (e.isFolder = false → ∀ data, e.content ≠ .broken data)

/-- The file that an entry stands for, with all of its data. -/
def ArchiveEntry.file? (e : ArchiveEntry) : Option UnpackedFile :=
  match e.isFolder, e.content with
  | false, .whole data => some ⟨e.name, data⟩
  | _, _ => none

namespace Archive

/-- The files of an archive in the order of its entries. -/
def files (a : Archive) : List UnpackedFile := a.filterMap ArchiveEntry.file?

/-- The size of files together. -/
def sizeOf (files : List UnpackedFile) : Nat := (files.map fun f => f.data.length).sum

@[simp] theorem files_nil : files [] = [] := rfl

theorem files_cons_of_none {e : ArchiveEntry} {a : Archive} (h : e.file? = none) :
    files (e :: a) = files a :=
  List.filterMap_cons_none h

theorem files_cons_of_some {e : ArchiveEntry} {a : Archive} {f : UnpackedFile}
    (h : e.file? = some f) : files (e :: a) = f :: files a :=
  List.filterMap_cons_some h

theorem files_append (a b : Archive) : files (a ++ b) = files a ++ files b :=
  List.filterMap_append

theorem files_concat (a : Archive) (e : ArchiveEntry) :
    files (a ++ [e]) = files a ++ e.file?.toList := by
  rw [files_append]
  cases h : e.file? with
  | none => rw [files_cons_of_none h, files_nil, Option.toList_none]
  | some f => rw [files_cons_of_some h, files_nil, Option.toList_some]

@[simp] theorem sizeOf_nil : sizeOf [] = 0 := rfl

@[simp] theorem sizeOf_cons (f : UnpackedFile) (l : List UnpackedFile) :
    sizeOf (f :: l) = f.data.length + sizeOf l := rfl

theorem sizeOf_append (l r : List UnpackedFile) : sizeOf (l ++ r) = sizeOf l + sizeOf r := by
  rw [sizeOf, List.map_append, List.sum_append]
  rfl

end Archive

namespace Thresholds

/-- Whether data are compressed too well. Data without bytes are not. -/
def IsTooDense (t : Thresholds) (packedSize : Nat) (data : Bytes) : Prop :=
  data ≠ [] ∧ t.exceedsRatio packedSize data.length = true

instance (t : Thresholds) (packedSize : Nat) (data : Bytes) :
    Decidable (t.IsTooDense packedSize data) :=
  inferInstanceAs (Decidable (_ ∧ _))

/-- Whether an archive stays within thresholds. -/
structure Allows (t : Thresholds) (a : Archive) : Prop where
  entries : a.length ≤ t.maxEntries
  size : Archive.sizeOf a.files ≤ t.maxTotalSize
  ratio : ∀ e ∈ a, ∀ f, e.file? = some f → ¬ t.IsTooDense e.packedSize f.data

theorem Allows.of_append {t : Thresholds} {a b : Archive} (h : t.Allows (a ++ b)) : t.Allows a where
  entries := by
    have hentries := h.entries
    rw [List.length_append] at hentries
    omega
  size := by
    have hsize := h.size
    rw [Archive.files_append, Archive.sizeOf_append] at hsize
    omega
  ratio := fun e he => h.ratio e (List.mem_append_left b he)

theorem Allows.concat {t : Thresholds} {a : Archive} {e : ArchiveEntry} (h : t.Allows a)
    (hentries : a.length < t.maxEntries)
    (hsize : Archive.sizeOf a.files + Archive.sizeOf e.file?.toList ≤ t.maxTotalSize)
    (hratio : ∀ f, e.file? = some f → ¬ t.IsTooDense e.packedSize f.data) :
    t.Allows (a ++ [e]) where
  entries := by
    rw [List.length_append, List.length_singleton]
    omega
  size := by rwa [Archive.files_concat, Archive.sizeOf_append]
  ratio := by
    intro e' he' f hf
    rcases List.mem_append.1 he' with hmem | hmem
    · exact h.ratio e' hmem f hf
    · obtain rfl := List.mem_singleton.1 hmem
      exact hratio f hf

/-- The reason to reject an entry that follows others. -/
inductive Rejects (t : Thresholds) (before : Archive) (e : ArchiveEntry) : ArchiveError → Prop
  | tooManyEntries : before.length = t.maxEntries → Rejects t before e .tooManyEntries
  | ratioExceeded {f : UnpackedFile} : before.length < t.maxEntries → e.file? = some f →
      t.IsTooDense e.packedSize f.data → Rejects t before e .ratioExceeded
  | totalSizeExceeded {f : UnpackedFile} : before.length < t.maxEntries → e.file? = some f →
      ¬ t.IsTooDense e.packedSize f.data →
      t.maxTotalSize < Archive.sizeOf before.files + f.data.length →
      Rejects t before e .totalSizeExceeded

/-- How the unpacking of an archive ends behind its first entries: with the number of their files
if nothing follows them, or with the error of the next entry. -/
inductive Ends (t : Thresholds) (before : Archive) : Archive → Except ArchiveError Nat → Prop
  | finished : Ends t before [] (.ok before.files.length)
  | rejected {e : ArchiveEntry} {r : Archive} {error : ArchiveError} :
      t.Rejects before e error → Ends t before (e :: r) (.error error)

/-- An archive within the thresholds is unpacked to its end. -/
theorem Ends.eq_nil {t : Thresholds} {before rest : Archive} {result : Except ArchiveError Nat}
    (h : t.Ends before rest result) (hallows : t.Allows (before ++ rest)) : rest = [] := by
  cases h with
  | finished => rfl
  | @rejected e r error hrejects =>
    exfalso
    have hentries := hallows.entries
    have hsize := hallows.size
    rw [List.length_append, List.length_cons] at hentries
    cases hrejects with
    | tooManyEntries hcount => omega
    | ratioExceeded _ hfile hdense => exact hallows.ratio e (by simp) _ hfile hdense
    | @totalSizeExceeded f _ hfile _ htotal =>
      rw [Archive.files_append, Archive.files_cons_of_some hfile, Archive.sizeOf_append,
        Archive.sizeOf_cons] at hsize
      omega

/-- **A ratio that is rejected at some size is rejected at any greater one.** -/
theorem exceedsRatio_mono {t : Thresholds} {packedSize size size' : Nat} (hsize : 0 < size)
    (hle : size ≤ size') (h : t.exceedsRatio packedSize size = true) :
    t.exceedsRatio packedSize size' = true := by
  have hpacked : 0 < max packedSize 1 := by omega
  have hrank := Binary64.rank_div_ofNat_le hsize hpacked hle
  have hnumber : (Binary64.div (Binary64.ofNat size') (Binary64.ofNat (max packedSize 1))).isNaN =
      false := Binary64.isNaN_round ..
  simp only [exceedsRatio, Binary64.lt, Bool.and_eq_true, Bool.not_eq_true', decide_eq_true_eq]
    at h ⊢
  exact ⟨⟨h.1.1, hnumber⟩, h.2.trans_le hrank⟩

end Thresholds

namespace Guard

variable {g : Guard} {t : Thresholds} {before a : Archive} {e : ArchiveEntry}

/-! ## Copying -/

theorem cut_spec {n : Nat} {data : Bytes} (h : data.length ≤ n * chunkSize) :
    (cut n data).flatten = data ∧ ∀ chunk ∈ cut n data, chunk ≠ [] := by
  induction n generalizing data with
  | zero =>
    have hnil : data = [] := List.eq_nil_of_length_eq_zero (by omega)
    subst hnil
    exact ⟨rfl, nofun⟩
  | succ n ih =>
    cases data with
    | nil => exact ⟨rfl, nofun⟩
    | cons b r =>
      have hrest : ((b :: r).drop chunkSize).length ≤ n * chunkSize := by
        rw [List.length_drop, Nat.sub_le_iff_le_add]
        rwa [Nat.succ_mul] at h
      obtain ⟨hflatten, hchunks⟩ := ih hrest
      rw [cut]
      refine ⟨?_, ?_⟩
      · rw [List.flatten_cons, hflatten, List.take_append_drop]
      · intro chunk hchunk
        rcases List.mem_cons.1 hchunk with rfl | hmem
        · exact List.cons_ne_nil _ _
        · exact hchunks chunk hmem

theorem chunks_spec (data : Bytes) :
    (chunks data).flatten = data ∧ ∀ chunk ∈ chunks data, chunk ≠ [] := by
  refine cut_spec ?_
  have hpos : 0 < chunkSize := by decide
  exact (Nat.lt_mul_of_div_lt (Nat.lt_succ_self _) hpos).le

/-- Chunks that are not rejected at their full size are all copied. -/
theorem copy_eq_ok {packedSize written : Nat} {l : List Bytes} (hl : ∀ chunk ∈ l, chunk ≠ [])
    (h : l ≠ [] → g.thresholds.exceedsRatio packedSize (written + l.flatten.length) = false) :
    copy packedSize written l g =
      (.ok (written + l.flatten.length), { g with scratch := l.reverse ++ g.scratch }) := by
  induction l generalizing g written with
  | nil => rfl
  | cons chunk r ih =>
    obtain ⟨hchunk, hr⟩ := List.forall_mem_cons.1 hl
    have hpos := List.length_pos_iff.2 hchunk
    have hfull := h (List.cons_ne_nil _ _)
    rw [List.flatten_cons, List.length_append] at hfull
    have hnow : g.thresholds.exceedsRatio packedSize (written + chunk.length) = false := by
      rw [Bool.eq_false_iff]
      intro hexceeds
      rw [Thresholds.exceedsRatio_mono (by omega) (by omega) hexceeds] at hfull
      cases hfull
    rw [copy]
    dsimp only
    rw [hnow, if_neg Bool.false_ne_true, ih hr (fun _ => by rwa [Nat.add_assoc])]
    rw [List.flatten_cons, List.length_append, Nat.add_assoc, List.reverse_cons,
      List.append_assoc, List.singleton_append]

/-- Chunks that are rejected at their full size are not all copied. -/
theorem copy_eq_error {packedSize written : Nat} {l : List Bytes} (hne : l ≠ [])
    (h : g.thresholds.exceedsRatio packedSize (written + l.flatten.length) = true) :
    (copy packedSize written l g).1 = .error .ratioExceeded := by
  induction l generalizing g written with
  | nil => exact absurd rfl hne
  | cons chunk r ih =>
    rw [List.flatten_cons, List.length_append, ← Nat.add_assoc] at h
    rw [copy]
    dsimp only
    split
    · rfl
    · next hnot =>
      refine ih ?_ h
      -- the last chunk is looked at at the full size
      rintro rfl
      exact hnot h

/-- Copying changes nothing but the scratch file. -/
theorem copy_frame (packedSize written : Nat) (l : List Bytes) (g : Guard) :
    ∃ scratch, (copy packedSize written l g).2 = { g with scratch } := by
  induction l generalizing g written with
  | nil => exact ⟨g.scratch, rfl⟩
  | cons chunk r ih =>
    rw [copy]
    dsimp only
    split
    · exact ⟨chunk :: g.scratch, rfl⟩
    · exact ih _ _

/-! ## One entry -/

theorem content_of_file? {f : UnpackedFile} (h : e.file? = some f) :
    e.isFolder = false ∧ e.content = .whole f.data ∧ f.name = e.name := by
  unfold ArchiveEntry.file? at h
  split at h
  · next data hfolder hcontent =>
    obtain rfl := Option.some.inj h
    exact ⟨hfolder, hcontent, rfl⟩
  · cases h

/-- An entry that can be read is a folder, or it stands for a file. -/
theorem isFolder_or_file? (h : e.IsReadable) :
    (e.isFolder = true ∧ e.file? = none) ∨ ∃ f, e.file? = some f := by
  cases hfolder : e.isFolder with
  | true => exact .inl ⟨rfl, by rw [ArchiveEntry.file?, hfolder]⟩
  | false =>
    refine .inr ?_
    rcases hcontent : e.content with data | data | _
    · exact ⟨⟨e.name, data⟩, by rw [ArchiveEntry.file?, hfolder, hcontent]⟩
    · exact absurd hcontent (h.2 hfolder data)
    · exact absurd hcontent h.1

theorem unpack_of_isTooDense {f : UnpackedFile} (hfile : e.file? = some f)
    (h : g.thresholds.IsTooDense e.packedSize f.data) :
    ∃ scratch, unpack g e = (.error .ratioExceeded, { g with scratch }) := by
  obtain ⟨-, hcontent, -⟩ := content_of_file? hfile
  obtain ⟨hflatten, -⟩ := chunks_spec f.data
  have hne : chunks f.data ≠ [] := by
    intro hnil
    rw [hnil] at hflatten
    exact h.1 hflatten.symm
  have hcopy : (copy e.packedSize 0 (chunks f.data) { g with scratch := [] }).1 =
      .error .ratioExceeded := by
    refine copy_eq_error hne ?_
    rw [hflatten, Nat.zero_add]
    exact h.2
  obtain ⟨scratch, hframe⟩ := copy_frame e.packedSize 0 (chunks f.data) { g with scratch := [] }
  rw [unpack, hcontent]
  dsimp only
  rw [show copy e.packedSize 0 (chunks f.data) { g with scratch := [] } =
    (.error .ratioExceeded, { g with scratch }) from Prod.ext hcopy hframe]
  exact ⟨scratch, rfl⟩

/-- The data that a file gets are those of its entry, whatever was in the scratch file before. -/
theorem unpack_of_not_isTooDense {f : UnpackedFile} (hfile : e.file? = some f)
    (h : ¬ g.thresholds.IsTooDense e.packedSize f.data) :
    ∃ g', unpack g e =
        (if g.thresholds.maxTotalSize < g.totalSize + f.data.length then .error .totalSizeExceeded
          else .ok f, g') ∧
      g'.thresholds = g.thresholds ∧ g'.visited = g.visited ∧
      g'.totalSize = g.totalSize + f.data.length := by
  obtain ⟨-, hcontent, hname⟩ := content_of_file? hfile
  obtain ⟨hflatten, hchunks⟩ := chunks_spec f.data
  have hfits : chunks f.data ≠ [] →
      g.thresholds.exceedsRatio e.packedSize (0 + (chunks f.data).flatten.length) = false := by
    intro hne
    rw [hflatten, Nat.zero_add, Bool.eq_false_iff]
    refine fun hexceeds => h ⟨?_, hexceeds⟩
    intro hnil
    rw [hnil] at hne
    exact hne rfl
  have hcopy := @copy_eq_ok { g with scratch := [] } e.packedSize 0 _ hchunks hfits
  rw [hflatten, Nat.zero_add, List.append_nil] at hcopy
  rw [unpack, hcontent]
  dsimp only
  rw [hcopy]
  dsimp only
  refine ⟨{ g with
    scratch := (chunks f.data).reverse, totalSize := g.totalSize + f.data.length }, ?_,
    rfl, rfl, rfl⟩
  split
  · rfl
  · rw [List.reverse_reverse, hflatten, ← hname]

/-- A guard has gone by the first entries of an archive. -/
structure HasVisited (g : Guard) (before : Archive) : Prop where
  visited : g.visited = before.length
  totalSize : g.totalSize = Archive.sizeOf before.files

theorem HasVisited.concat {g' : Guard} (h : g.HasVisited before)
    (hvisited : g'.visited = g.visited + 1)
    (htotal : g'.totalSize = g.totalSize + Archive.sizeOf e.file?.toList) :
    g'.HasVisited (before ++ [e]) where
  visited := by rw [hvisited, h.visited, List.length_append, List.length_singleton]
  totalSize := by rw [htotal, h.totalSize, Archive.files_concat, Archive.sizeOf_append]

/-- **An entry is rejected for a reason, or the guard goes on by it with its file.** -/
theorem visit_cases (hg : g.HasVisited before) (hallows : g.thresholds.Allows before)
    (he : e.IsReadable) :
    (∃ error, (visit g e).1 = .error error ∧ g.thresholds.Rejects before e error) ∨
      ∃ g', visit g e = (.ok e.file?, g') ∧ g'.thresholds = g.thresholds ∧
        g'.HasVisited (before ++ [e]) ∧ g.thresholds.Allows (before ++ [e]) := by
  have hentries := hallows.entries
  have hsize := hallows.size
  rw [visit]
  dsimp only
  split
  · next hmany =>
    rw [hg.visited] at hmany
    exact .inl ⟨_, rfl, .tooManyEntries (by omega)⟩
  next hfew =>
  rw [hg.visited] at hfew
  rw [if_neg he.1]
  rcases isFolder_or_file? he with ⟨hfolder, hnone⟩ | ⟨f, hfile⟩
  · rw [if_pos hfolder]
    refine .inr ⟨_, congrArg (Except.ok · , _) hnone.symm, rfl, hg.concat rfl ?_,
      hallows.concat (by omega) ?_ ?_⟩
    · rw [hnone]
      rfl
    · rw [hnone]
      exact hsize
    · rw [hnone]
      nofun
  rw [if_neg (by rw [(content_of_file? hfile).1]; exact Bool.false_ne_true)]
  by_cases hdense : g.thresholds.IsTooDense e.packedSize f.data
  · obtain ⟨scratch, hunpack⟩ :=
      unpack_of_isTooDense (g := { g with visited := g.visited + 1 }) hfile hdense
    refine .inl ⟨.ratioExceeded, ?_, .ratioExceeded (by omega) hfile hdense⟩
    rw [hunpack]
    rfl
  obtain ⟨g', hunpack, hthresholds, hvisited, htotal⟩ :=
    unpack_of_not_isTooDense (g := { g with visited := g.visited + 1 }) hfile hdense
  have hfileSize : Archive.sizeOf e.file?.toList = f.data.length := by
    rw [hfile, Option.toList_some, Archive.sizeOf_cons, Archive.sizeOf_nil, Nat.add_zero]
  rw [hunpack]
  dsimp only
  split
  · next htoo =>
    rw [hg.totalSize] at htoo
    exact .inl ⟨_, rfl, .totalSizeExceeded (by omega) hfile hdense htoo⟩
  · next hfits =>
    rw [hg.totalSize] at hfits
    refine .inr ⟨g', by rw [hfile]; rfl, hthresholds, hg.concat hvisited ?_,
      hallows.concat (by omega) ?_ ?_⟩
    · rw [hfileSize]
      exact htotal
    · rw [hfileSize]
      omega
    · intro f' hf'
      obtain rfl := Option.some.inj (hfile.symm.trans hf')
      exact hdense

theorem pending_copy (packedSize written : Nat) (l : List Bytes) (g : Guard) :
    (copy packedSize written l g).2.pending = g.pending := by
  obtain ⟨scratch, hframe⟩ := copy_frame packedSize written l g
  rw [hframe]

theorem pending_unpack (g : Guard) (e : ArchiveEntry) : (unpack g e).2.pending = g.pending := by
  have hcopy := fun data => pending_copy e.packedSize 0 (chunks data) { g with scratch := [] }
  unfold unpack
  split
  · rfl
  · next data _ => exact hcopy data
  · next data _ =>
    have hdata := hcopy data
    rcases hresult : copy e.packedSize 0 (chunks data) { g with scratch := [] } with
      ⟨error | size, g'⟩
    · rwa [hresult] at hdata
    · rw [hresult] at hdata
      dsimp only
      split <;> exact hdata

theorem pending_visit (g : Guard) (e : ArchiveEntry) : (visit g e).2.pending = g.pending := by
  unfold visit
  dsimp only
  split
  · rfl
  · split
    · rfl
    · split
      · rfl
      · exact pending_unpack _ e

/-! ## The next file -/

/-- **Going on to the next file.** Entries without a file are passed over up to the end of the
archive or an entry that is rejected, or else up to a file. -/
theorem nextOf_cases (hg : g.HasVisited before) (hallows : g.thresholds.Allows before)
    (ha : ∀ e ∈ a, e.IsReadable) :
    (∃ part rest result, a = part ++ rest ∧ Archive.files part = [] ∧
        g.thresholds.Allows (before ++ part) ∧ g.thresholds.Ends (before ++ part) rest result ∧
        (nextOf g a).1 = result.map fun _ => none) ∨
      ∃ part file g', a = part ++ g'.pending ∧ Archive.files part = [file] ∧
        nextOf g a = (.ok (some file), g') ∧ g'.thresholds = g.thresholds ∧
        g'.HasVisited (before ++ part) ∧ g.thresholds.Allows (before ++ part) := by
  induction a generalizing g before with
  | nil =>
    refine .inl ⟨[], [], .ok before.files.length, rfl, rfl, ?_, ?_, rfl⟩
    · rwa [List.append_nil]
    · rw [List.append_nil]
      exact .finished
  | cons e r ih =>
    obtain ⟨he, hr⟩ := List.forall_mem_cons.1 ha
    have hg : ({ g with pending := r } : Guard).HasVisited before := ⟨hg.visited, hg.totalSize⟩
    have hpending := pending_visit { g with pending := r } e
    rw [nextOf]
    rcases visit_cases hg hallows he with ⟨error, hvisit, hrejects⟩ |
      ⟨g', hvisit, hthresholds, hg', hallows'⟩
    · refine .inl ⟨[], e :: r, .error error, rfl, rfl, ?_, ?_, ?_⟩
      · rwa [List.append_nil]
      · rw [List.append_nil]
        exact .rejected hrejects
      · rcases hv : visit { g with pending := r } e with ⟨result, g'⟩
        rw [hv] at hvisit
        obtain rfl : result = .error error := hvisit
        rfl
    rw [hvisit] at hpending ⊢
    cases hfile : e.file? with
    | none =>
      rcases ih hg' (by rwa [hthresholds]) hr with
        ⟨part, rest, result, rfl, hnone, hpart, hends, hnext⟩ |
        ⟨part, file, g'', hsplit, hone, hnext, hthresholds', hg'', hpart⟩
      · rw [hthresholds, List.append_assoc] at hpart hends
        refine .inl ⟨e :: part, rest, result, rfl, ?_, hpart, hends, hnext⟩
        rw [Archive.files_cons_of_none hfile, hnone]
      · rw [hthresholds, List.append_assoc] at hpart
        rw [List.append_assoc] at hg''
        refine .inr ⟨e :: part, file, g'', by rw [hsplit, List.cons_append], ?_, hnext,
          hthresholds'.trans hthresholds, hg'', hpart⟩
        rw [Archive.files_cons_of_none hfile, hone]
    | some file =>
      refine .inr ⟨[e], file, g', ?_, Archive.files_cons_of_some hfile, rfl, hthresholds, hg',
        hallows'⟩
      exact congrArg (e :: ·) hpending.symm

/-! ## All entries -/

section All

variable {m : Type → Type} [Monad m] [LawfulMonad m] (fail : ArchiveError → m Nat)
  (f : UnpackedFile → m Unit)

/-- What is left to do when all files are handed over. -/
def conclude {m : Type → Type} [Monad m] (fail : ArchiveError → m Nat) :
    Except ArchiveError Nat → m Nat
  | .ok count => pure count
  | .error error => fail error

/-- **Handing over all files is going on to the next one until there is none.** -/
theorem forEachOf_eq_next {m : Type → Type} [Monad m] (fail : ArchiveError → m Nat)
    (f : UnpackedFile → m Unit) (count : Nat) (g : Guard) (a : Archive) :
    forEachOf fail f count g a =
      match nextOf g a with
      | (.error error, _) => fail error
      | (.ok none, _) => pure count
      | (.ok (some file), g) =>
        (do f file; forEachOf fail f (count + 1) g g.pending) := by
  induction a generalizing g with
  | nil => rfl
  | cons e r ih =>
    have hpending := pending_visit { g with pending := r } e
    rw [forEachOf, nextOf]
    rcases hvisit : visit { g with pending := r } e with ⟨error | _ | file, g'⟩
    · rfl
    · exact ih g'
    · rw [hvisit] at hpending
      dsimp only at hpending ⊢
      rw [hpending]

theorem forEachOf_eq (hg : g.HasVisited before) (hallows : g.thresholds.Allows before)
    (ha : ∀ e ∈ a, e.IsReadable) :
    ∃ part rest result, a = part ++ rest ∧ g.thresholds.Allows (before ++ part) ∧
      g.thresholds.Ends (before ++ part) rest result ∧
      forEachOf fail f before.files.length g a =
        (do (Archive.files part).forM f; conclude fail result) := by
  -- what is left behind the next file is shorter, but no tail of the archive by itself
  induction hn : a.length using Nat.strongRecOn generalizing g before a with
  | ind n ih =>
    rw [forEachOf_eq_next]
    rcases nextOf_cases hg hallows ha with ⟨part, rest, result, rfl, hnone, hpart, hends, hnext⟩ |
      ⟨part, file, g', hsplit, hone, hnext, hthresholds, hg', hpart⟩
    · refine ⟨part, rest, result, rfl, hpart, hends, ?_⟩
      rw [hnone, List.forM, pure_bind]
      rcases hanswer : nextOf g (part ++ rest) with ⟨answer, g'⟩
      rw [hanswer] at hnext
      obtain rfl : answer = result.map fun _ => none := hnext
      cases hends with
      | finished =>
        rw [Archive.files_append, hnone, List.append_nil]
        rfl
      | rejected => rfl
    · have hshorter : g'.pending.length < n := by
        have hne : part ≠ [] := by
          rintro rfl
          cases hone
        have hlength := congrArg List.length hsplit
        have hpos := List.length_pos_iff.2 hne
        rw [List.length_append] at hlength
        omega
      have hreadable : ∀ e ∈ g'.pending, e.IsReadable := fun e he =>
        ha e (hsplit ▸ List.mem_append_right part he)
      obtain ⟨part', rest, result, hsplit', hpart', hends, heq⟩ :=
        ih _ hshorter hg' (by rwa [hthresholds]) hreadable rfl
      rw [hthresholds, List.append_assoc] at hpart' hends
      refine ⟨part ++ part', rest, result, by rw [hsplit, hsplit', List.append_assoc], hpart',
        hends, ?_⟩
      rw [hnext, Archive.files_append, hone, List.singleton_append, List.forM, bind_assoc]
      rw [Archive.files_append, hone, List.length_append, List.length_singleton] at heq
      exact bind_congr fun _ => heq

end All

theorem outcome_conclude {ε σ : Type} (wrap : ArchiveError → ε) (result : Except ArchiveError Nat)
    (s : σ) :
    outcome (conclude (fun e => throw (wrap e)) result : ExceptT ε (StateM σ) Nat) s =
      (result.mapError wrap, s) := by
  cases result <;> rfl

/-- **A guard hands over the files of the part of an archive that the thresholds allow.** The part
ends where the archive ends or where the next entry is rejected. Its files are handed over one after
the other, up to the first one with which the action fails. -/
theorem outcome_forEach {ε σ : Type} (t : Thresholds) (a : Archive) (ha : ∀ e ∈ a, e.IsReadable)
    (wrap : ArchiveError → ε) (f : UnpackedFile → ExceptT ε (StateM σ) Unit) (s : σ) :
    let fail := fun error => throw (wrap error)
    let run := outcome (forEach fail f { thresholds := t, pending := a }) s
    ∃ part rest result, a = part ++ rest ∧ t.Ends part rest result ∧
      (∀ before e after, part = before ++ e :: after → t.Allows (before ++ [e])) ∧
      run = outcome (do (Archive.files part).forM f; conclude fail result) s ∧
      ((∀ file s, (outcome (f file) s).1 = .ok ()) → run.1 = result.mapError wrap) := by
  intro fail run
  have hstart : HasVisited { thresholds := t, pending := a } [] := ⟨rfl, rfl⟩
  have hempty : t.Allows [] := ⟨Nat.zero_le _, Nat.zero_le _, nofun⟩
  obtain ⟨part, rest, result, hsplit, hallows, hends, heq⟩ :=
    forEachOf_eq fail f hstart hempty ha
  have hrun : run = outcome (do (Archive.files part).forM f; conclude fail result) s :=
    congrArg (outcome · s) heq
  refine ⟨part, rest, result, hsplit, hends, ?_, hrun, ?_⟩
  · rintro before e after rfl
    refine Thresholds.Allows.of_append (b := after) ?_
    rwa [List.append_assoc, List.singleton_append]
  · intro hf
    have hall := fst_outcome_forM hf (Archive.files part) s
    rw [hrun, outcome_bind]
    rcases hforM : outcome ((Archive.files part).forM f) s with ⟨e | ⟨⟩, s'⟩
    · rw [hforM] at hall
      cases hall
    · exact congrArg Prod.fst (outcome_conclude wrap result s')

/-- The thresholds let the total size of the files be three bytes: of three files the first two are
handed over, and the folder in front of the second one is left out. -/
theorem outcome_forEach_totalSizeExceeded :
    let t : Thresholds := { maxTotalSize := 3 }
    let a : Archive := [⟨"a", 1, .whole [1]⟩, ⟨"d/", 0, .whole []⟩, ⟨"d/b", 2, .whole [2, 3]⟩,
      ⟨"c", 1, .whole [4]⟩]
    let record : UnpackedFile → ExceptT ArchiveError (StateM (List UnpackedFile)) Unit :=
      fun f => modify (· ++ [f])
    let fail := fun error => throw (id error)
    let run := outcome (forEach fail record { thresholds := t, pending := a }) []
    (∀ e ∈ a, e.IsReadable) ∧
      run = (.error .totalSizeExceeded, [⟨"a", [1]⟩, ⟨"d/b", [2, 3]⟩]) ∧
      ∃ part rest result, a = part ++ rest ∧ t.Ends part rest result ∧
        (∀ before e after, part = before ++ e :: after → t.Allows (before ++ [e])) ∧
        run = outcome (do (Archive.files part).forM record; conclude fail result) [] ∧
        ((∀ file files, (outcome (record file) files).1 = .ok ()) →
          run.1 = result.mapError id) := by
  intro t a record fail run
  have hreadable : ∀ e ∈ a, e.IsReadable := by
    intro e he
    simp only [a, List.mem_cons, List.not_mem_nil, or_false] at he
    rcases he with rfl | rfl | rfl | rfl <;> exact ⟨nofun, fun _ _ => nofun⟩
  refine ⟨hreadable, ?_, outcome_forEach t a hreadable id record []⟩
  decide +kernel

end Guard

end ContentImport
