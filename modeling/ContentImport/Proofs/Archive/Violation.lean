import ContentImport.Proofs.Archive.Guard

/-!
# Calls after a threshold is violated

A guard that has failed can be called again, and it goes on behind the entry with which it failed.

* `Thresholds.HandsOver` says of the entries alone which of them are handed over.
* `Guard.IsAt` is what a guard knows about the entries that it has gone by, whatever they are. It is
  kept by one visit (`isAt_visit`) and by one call (`isAt_nextOf`), so it holds after any calls
  (`isAt_afterCalls`).
* The number of the entries and the total size never get smaller. So where one of them is too great
  no call hands over a file any more (`Thresholds.HandsOver.not_isExhausted`). The ratio is only
  that of one entry, and a guard does not remember that it was exceeded. So a file is handed over by
  some call just if its entry is handed over behind those before it (`exists_call_iff`).
-/

namespace ContentImport

/-- Whether an error says that a threshold is violated. -/
def ArchiveError.isViolation : ArchiveError → Bool
  | .tooManyEntries | .totalSizeExceeded | .ratioExceeded => true
  | _ => false

namespace Thresholds

variable {t : Thresholds} {a before between : Archive} {e : ArchiveEntry} {f : UnpackedFile}

/-- The file of an entry that is unpacked to its end. -/
def unpacked? (t : Thresholds) (e : ArchiveEntry) : Option UnpackedFile :=
  e.file?.filter fun f => ¬ t.IsTooDense e.packedSize f.data

/-- The files of an archive that are unpacked to their ends. -/
def unpacked (t : Thresholds) (a : Archive) : List UnpackedFile := a.filterMap t.unpacked?

/-- Whether the file of an entry is handed over behind other entries: the entry is one of the first
ones, it is not compressed too well, and with it the files are not too large. -/
structure HandsOver (t : Thresholds) (before : Archive) (e : ArchiveEntry) (f : UnpackedFile) :
    Prop where
  entries : before.length < t.maxEntries
  file : t.unpacked? e = some f
  size : Archive.sizeOf (t.unpacked (before ++ [e])) ≤ t.maxTotalSize

/-- Whether entries are too many, or their files too large. -/
def IsExhausted (t : Thresholds) (a : Archive) : Prop :=
  t.maxEntries < a.length ∨ t.maxTotalSize < Archive.sizeOf (t.unpacked a)

theorem unpacked_append (t : Thresholds) (a b : Archive) :
    t.unpacked (a ++ b) = t.unpacked a ++ t.unpacked b :=
  List.filterMap_append

theorem sizeOf_unpacked_concat (t : Thresholds) (a : Archive) (e : ArchiveEntry) :
    Archive.sizeOf (t.unpacked (a ++ [e])) =
      Archive.sizeOf (t.unpacked a) + Archive.sizeOf (t.unpacked? e).toList := by
  rw [unpacked_append, Archive.sizeOf_append]
  cases h : t.unpacked? e with
  | none => rw [unpacked, unpacked, List.filterMap_cons_none h, List.filterMap_nil, Option.toList]
  | some f => rw [unpacked, unpacked, List.filterMap_cons_some h, List.filterMap_nil, Option.toList]

theorem unpacked?_of_file?_eq_none (h : e.file? = none) : t.unpacked? e = none := by
  rw [unpacked?, h, Option.filter_none]

theorem unpacked?_of_isTooDense (hfile : e.file? = some f) (h : t.IsTooDense e.packedSize f.data) :
    t.unpacked? e = none := by
  rw [unpacked?, hfile, Option.filter_some_neg]
  rw [decide_eq_false_iff_not, not_not]
  exact h

theorem unpacked?_of_not_isTooDense (hfile : e.file? = some f)
    (h : ¬ t.IsTooDense e.packedSize f.data) : t.unpacked? e = some f := by
  rw [unpacked?, hfile, Option.filter_some_pos]
  rwa [decide_eq_true_eq]

/-- Nothing is handed over behind too many entries or too large files. -/
theorem HandsOver.not_isExhausted (h : t.HandsOver (before ++ between) e f) :
    ¬ t.IsExhausted before := by
  have hentries := h.entries
  have hsize := h.size
  rw [List.length_append] at hentries
  rw [List.append_assoc, unpacked_append, Archive.sizeOf_append] at hsize
  rintro (hmany | hlarge) <;> omega

end Thresholds

namespace Guard

variable {g : Guard} {t : Thresholds} {seen : Archive} {e : ArchiveEntry}

/-! ## One visit -/

/-- The only error of copying is that of the ratio. -/
theorem copy_error (packedSize written : Nat) (l : List Bytes) (g : Guard) :
    (∃ size, (copy packedSize written l g).1 = .ok size) ∨
      (copy packedSize written l g).1 = .error .ratioExceeded := by
  induction l generalizing g written with
  | nil => exact .inl ⟨written, rfl⟩
  | cons chunk r ih =>
    rw [copy]
    dsimp only
    split
    · exact .inr rfl
    · exact ih _ _

/-- What a guard knows about the entries that it has gone by. -/
structure IsAt (g : Guard) (t : Thresholds) (seen : Archive) : Prop where
  thresholds : g.thresholds = t
  visited : g.visited = seen.length
  /-- Nothing is unpacked of the entries that are too many. -/
  totalSize : seen.length ≤ t.maxEntries → g.totalSize = Archive.sizeOf (t.unpacked seen)

/-- What comes of an entry, given those before it. -/
structure Answers (t : Thresholds) (seen : Archive) (e : ArchiveEntry)
    (result : Except ArchiveError (Option UnpackedFile)) : Prop where
  file : ∀ f, result = .ok (some f) ↔ t.HandsOver seen e f
  error : ∀ error, result = .error error → error.isViolation = true → error ≠ .ratioExceeded →
    t.IsExhausted (seen ++ [e])

theorem IsAt.concat {g' : Guard} (hg : g.IsAt t seen) (hthresholds : g'.thresholds = g.thresholds)
    (hvisited : g'.visited = g.visited + 1)
    (htotal : seen.length < t.maxEntries →
      g'.totalSize = g.totalSize + Archive.sizeOf (t.unpacked? e).toList) :
    g'.IsAt t (seen ++ [e]) where
  thresholds := hthresholds.trans hg.thresholds
  visited := by rw [hvisited, hg.visited, List.length_append, List.length_singleton]
  totalSize hfew := by
    rw [List.length_append, List.length_singleton] at hfew
    rw [htotal (by omega), hg.totalSize (by omega), Thresholds.sizeOf_unpacked_concat]

/-- An entry of which nothing is unpacked leaves the total size as it is, and its only violation is
that of the ratio. -/
theorem isAt_of_unpacked?_eq_none (hg : g.IsAt t seen) (hnone : t.unpacked? e = none)
    (scratch : List Bytes) {result : Except ArchiveError (Option UnpackedFile)}
    (hfile : ∀ f, result ≠ .ok (some f))
    (herror : ∀ error, result = .error error → error.isViolation = true → error = .ratioExceeded) :
    ({ g with visited := g.visited + 1, scratch } : Guard).IsAt t (seen ++ [e]) ∧
      Answers t seen e result := by
  refine ⟨hg.concat rfl rfl fun _ => ?_, fun f => iff_of_false (hfile f) fun h => ?_,
    fun error hresult hviolation hne => absurd (herror error hresult hviolation) hne⟩
  · rw [hnone]
    rfl
  · have hsome := h.file
    rw [hnone] at hsome
    cases hsome

theorem unpack_of_broken {data : Bytes} (hcontent : e.content = .broken data) :
    ∃ error scratch, unpack g e = (.error error, { g with scratch }) ∧
      (error = .ratioExceeded ∨ error = .unreadable none) := by
  obtain ⟨scratch, hframe⟩ := copy_frame e.packedSize 0 (chunks data) { g with scratch := [] }
  rw [unpack, hcontent]
  dsimp only
  rw [hframe]
  rcases copy_error e.packedSize 0 (chunks data) { g with scratch := [] } with ⟨size, hok⟩ | herror
  · rw [hok]
    exact ⟨_, scratch, rfl, .inr rfl⟩
  · rw [herror]
    exact ⟨_, scratch, rfl, .inl rfl⟩

/-- An entry that is not compressed too well is unpacked to its end. -/
theorem isAt_unpack_of_not_isTooDense {f : UnpackedFile} (hg : g.IsAt t seen)
    (hfew : seen.length < t.maxEntries) (hfile : e.file? = some f)
    (hdense : ¬ t.IsTooDense e.packedSize f.data) :
    (unpack { g with visited := g.visited + 1 } e).2.IsAt t (seen ++ [e]) ∧
      Answers t seen e ((unpack { g with visited := g.visited + 1 } e).1.map some) := by
  have hunpacked := Thresholds.unpacked?_of_not_isTooDense hfile hdense
  obtain ⟨g', hunpack, hthresholds, hvisited, htotal⟩ :=
    unpack_of_not_isTooDense (g := { g with visited := g.visited + 1 }) hfile
      (hg.thresholds.symm ▸ hdense)
  have hsize : g.totalSize + f.data.length = Archive.sizeOf (t.unpacked (seen ++ [e])) := by
    rw [hg.totalSize hfew.le, Thresholds.sizeOf_unpacked_concat, hunpacked, Option.toList_some,
      Archive.sizeOf_cons, Archive.sizeOf_nil, Nat.add_zero]
  rw [hunpack]
  refine ⟨⟨hthresholds.trans hg.thresholds, ?_, fun _ => htotal.trans hsize⟩, ?_⟩
  · rw [hvisited, hg.visited, List.length_append, List.length_singleton]
  dsimp only
  rw [hg.thresholds, hsize]
  split
  · next hlarge =>
    refine ⟨fun f' => iff_of_false (by rintro ⟨⟩) fun h => ?_, fun _ _ _ _ => .inr hlarge⟩
    have hsmall := h.size
    omega
  · next hsmall =>
    refine ⟨fun f' => ⟨?_, fun h => ?_⟩, by rintro _ ⟨⟩⟩
    · rintro ⟨⟩
      exact ⟨hfew, hunpacked, by omega⟩
    · obtain rfl := Option.some.inj (hunpacked.symm.trans h.file)
      rfl

/-- An entry that is unpacked is one of the first ones, no folder, and its record can be read. -/
theorem isAt_unpack (hg : g.IsAt t seen) (hfew : seen.length < t.maxEntries)
    (hunlocked : e.content ≠ .locked) (hfolder : e.isFolder = false) :
    (unpack { g with visited := g.visited + 1 } e).2.IsAt t (seen ++ [e]) ∧
      Answers t seen e ((unpack { g with visited := g.visited + 1 } e).1.map some) := by
  rcases hcontent : e.content with data | data | _
  · have hfile : e.file? = some ⟨e.name, data⟩ := by rw [ArchiveEntry.file?, hfolder, hcontent]
    by_cases hdense : t.IsTooDense e.packedSize data
    · obtain ⟨scratch, hunpack⟩ :=
        unpack_of_isTooDense (g := { g with visited := g.visited + 1 }) hfile
          (hg.thresholds.symm ▸ hdense)
      rw [hunpack]
      refine isAt_of_unpacked?_eq_none hg (Thresholds.unpacked?_of_isTooDense hfile hdense) scratch
        (by rintro _ ⟨⟩) ?_
      rintro _ ⟨⟩ -
      rfl
    · exact isAt_unpack_of_not_isTooDense hg hfew hfile hdense
  · obtain ⟨error, scratch, hunpack, herror⟩ :=
      unpack_of_broken (g := { g with visited := g.visited + 1 }) hcontent
    have hnone : e.file? = none := by rw [ArchiveEntry.file?, hfolder, hcontent]
    rw [hunpack]
    refine isAt_of_unpacked?_eq_none hg (Thresholds.unpacked?_of_file?_eq_none hnone) scratch
      (by rintro _ ⟨⟩) ?_
    rintro _ ⟨⟩ hviolation
    rcases herror with rfl | rfl
    · rfl
    · cases hviolation
  · exact absurd hcontent hunlocked

/-- **What a guard answers to an entry depends on the entries before it alone**, and it has gone by
the entry whatever it answers. -/
theorem isAt_visit (hg : g.IsAt t seen) (e : ArchiveEntry) :
    (visit g e).2.IsAt t (seen ++ [e]) ∧ Answers t seen e (visit g e).1 := by
  rw [visit]
  dsimp only
  split
  · next hmany =>
    rw [hg.thresholds, hg.visited] at hmany
    refine ⟨hg.concat rfl rfl fun hfew => by omega, fun f => iff_of_false ?_ fun h => ?_,
      fun _ _ _ _ => .inl ?_⟩
    · rintro ⟨⟩
    · have hfew := h.entries
      omega
    · rwa [List.length_append, List.length_singleton]
  next hfew =>
  rw [hg.thresholds, hg.visited] at hfew
  split
  · next hlocked =>
    have hnone : e.file? = none := by
      rw [ArchiveEntry.file?, hlocked]
      cases e.isFolder <;> rfl
    refine isAt_of_unpacked?_eq_none hg (Thresholds.unpacked?_of_file?_eq_none hnone) g.scratch
      (by rintro _ ⟨⟩) ?_
    rintro _ ⟨⟩ hviolation
    cases hviolation
  next hunlocked =>
  split
  · next hfolder =>
    have hnone : e.file? = none := by rw [ArchiveEntry.file?, hfolder]
    exact isAt_of_unpacked?_eq_none hg (Thresholds.unpacked?_of_file?_eq_none hnone) g.scratch
      (by rintro _ ⟨⟩) (by rintro _ ⟨⟩)
  · next hfolder => exact isAt_unpack hg (by omega) hunlocked (Bool.eq_false_iff.2 hfolder)

/-! ## Calls one after the other -/

/-- The guard after so many calls, whatever they give. -/
def afterCalls : Nat → Guard → Guard
  | 0, g => g
  | n + 1, g => afterCalls n (next g).2

/-- What the call behind so many others gives. -/
def call (g : Guard) (n : Nat) : Except ArchiveError (Option UnpackedFile) :=
  (next (afterCalls n g)).1

theorem afterCalls_add (n m : Nat) (g : Guard) :
    afterCalls (n + m) g = afterCalls m (afterCalls n g) := by
  induction n generalizing g with
  | zero => rw [Nat.zero_add, afterCalls]
  | succ n ih => rw [Nat.succ_add, afterCalls, afterCalls, ih]

theorem call_add (g : Guard) (n m : Nat) : g.call (n + m) = (g.afterCalls n).call m := by
  rw [call, call, afterCalls_add]

theorem IsAt.withPending (hg : g.IsAt t seen) (a : Archive) :
    ({ g with pending := a } : Guard).IsAt t seen :=
  ⟨hg.thresholds, hg.visited, hg.totalSize⟩

/-- A call goes by some entries. If it fails for their number or their size, these stay too great
for good. -/
theorem isAt_nextOf (hg : g.IsAt t seen) (a : Archive) :
    ∃ passed, a = passed ++ (nextOf g a).2.pending ∧ (nextOf g a).2.IsAt t (seen ++ passed) ∧
      ∀ error, (nextOf g a).1 = .error error → error.isViolation = true →
        error ≠ .ratioExceeded → t.IsExhausted (seen ++ passed) := by
  induction a generalizing g seen with
  | nil =>
    refine ⟨[], rfl, ?_, by rintro _ ⟨⟩⟩
    rw [List.append_nil]
    exact hg.withPending []
  | cons e r ih =>
    obtain ⟨hvisited, hanswer⟩ := isAt_visit (hg.withPending r) e
    have hpending := pending_visit { g with pending := r } e
    rw [nextOf]
    rcases hvisit : visit { g with pending := r } e with ⟨error | _ | file, g'⟩ <;>
      rw [hvisit] at hvisited hanswer hpending <;> dsimp only at hvisited hanswer hpending ⊢
    · refine ⟨[e], by rw [hpending]; rfl, hvisited, ?_⟩
      rintro _ ⟨⟩
      exact hanswer.error error rfl
    · obtain ⟨passed, hsplit, hat, herror⟩ := ih hvisited
      rw [List.append_assoc] at hat herror
      exact ⟨e :: passed, by rw [List.cons_append, ← hsplit], hat, herror⟩
    · exact ⟨[e], by rw [hpending]; rfl, hvisited, by rintro _ ⟨⟩⟩

theorem isAt_afterCalls (hg : g.IsAt t seen) (n : Nat) :
    ∃ passed, g.pending = passed ++ (afterCalls n g).pending ∧
      (afterCalls n g).IsAt t (seen ++ passed) := by
  induction n generalizing g seen with
  | zero => exact ⟨[], rfl, by rwa [List.append_nil]⟩
  | succ n ih =>
    obtain ⟨passed, hsplit, hat, -⟩ := isAt_nextOf hg g.pending
    obtain ⟨further, hfurther, hend⟩ := ih hat
    refine ⟨passed ++ further, ?_, ?_⟩
    · rw [List.append_assoc, afterCalls]
      exact hsplit.trans (congrArg (passed ++ ·) hfurther)
    · rw [← List.append_assoc]
      exact hend

theorem call_of_pending_eq_nil (hpending : g.pending = []) (n : Nat) : g.call n = .ok none := by
  induction n generalizing g with
  | zero =>
    rw [call, afterCalls, next, hpending]
    rfl
  | succ n ih =>
    rw [Nat.add_comm, call_add]
    refine ih ?_
    rw [afterCalls, afterCalls, next, hpending]
    rfl

/-- The calls of a guard are the next one and those behind it. -/
theorem exists_call_iff_next (g : Guard) (f : UnpackedFile) :
    (∃ m, g.call m = .ok (some f)) ↔
      (next g).1 = .ok (some f) ∨ ∃ m, (next g).2.call m = .ok (some f) := by
  constructor
  · rintro ⟨m, hm⟩
    cases m with
    | zero => exact .inl hm
    | succ m => exact .inr ⟨m, hm⟩
  · rintro (h | ⟨m, hm⟩)
    · exact ⟨0, h⟩
    · exact ⟨m + 1, hm⟩

/-- The calls of a guard give what its next visit gives, and what the calls behind it give. -/
theorem exists_call_cons {r : Archive} (hpending : g.pending = e :: r) (f : UnpackedFile) :
    (∃ m, g.call m = .ok (some f)) ↔
      (visit { g with pending := r } e).1 = .ok (some f) ∨
        ∃ m, (visit { g with pending := r } e).2.call m = .ok (some f) := by
  have hafter := pending_visit { g with pending := r } e
  rcases hvisit : visit { g with pending := r } e with ⟨error | _ | file, g'⟩
  · have hnext : next g = (.error error, g') := by rw [next, hpending, nextOf, hvisit]
    rw [exists_call_iff_next, hnext]
  · -- the same call goes on behind a folder
    rw [hvisit] at hafter
    have hnext : next g = next g' := by rw [next, hpending, nextOf, hvisit, next, hafter]
    rw [exists_call_iff_next, hnext, ← exists_call_iff_next]
    exact (or_iff_right (by rintro ⟨⟩)).symm
  · have hnext : next g = (.ok (some file), g') := by rw [next, hpending, nextOf, hvisit]
    rw [exists_call_iff_next, hnext]

/-- **A file is handed over by some call just if its entry is handed over behind the entries before
it**, whatever calls fail. -/
theorem exists_call_iff (hg : g.IsAt t seen) (f : UnpackedFile) :
    (∃ m, g.call m = .ok (some f)) ↔
      ∃ between e after, g.pending = between ++ e :: after ∧
        t.HandsOver (seen ++ between) e f := by
  induction hpending : g.pending generalizing g seen with
  | nil =>
    refine iff_of_false ?_ ?_
    · rintro ⟨m, hm⟩
      rw [call_of_pending_eq_nil hpending] at hm
      cases hm
    · rintro ⟨between, e, after, hsplit, -⟩
      cases between <;> cases hsplit
  | cons e r ih =>
    obtain ⟨hvisited, hanswer⟩ := isAt_visit (hg.withPending r) e
    rw [exists_call_cons hpending, hanswer.file, ih hvisited (pending_visit _ e)]
    constructor
    · rintro (h | ⟨between, e', after, rfl, h⟩)
      · exact ⟨[], e, r, rfl, by rwa [List.append_nil]⟩
      · refine ⟨e :: between, e', after, rfl, ?_⟩
        rwa [List.append_assoc] at h
    · rintro ⟨between, e', after, hsplit, h⟩
      rcases List.append_eq_cons_iff.1 hsplit.symm with ⟨rfl, hcons⟩ | ⟨between, rfl, hr⟩
      · obtain ⟨rfl, rfl⟩ := List.cons.inj hcons
        rw [List.append_nil] at h
        exact .inl h
      · refine .inr ⟨between, e', after, hr, ?_⟩
        rwa [List.append_assoc]

/-- The guard before its first call. -/
def start (t : Thresholds) (a : Archive) : Guard := { thresholds := t, pending := a }

theorem isAt_start (t : Thresholds) (a : Archive) : (start t a).IsAt t [] :=
  ⟨rfl, rfl, fun _ => rfl⟩

/-- The entries that do not stand among the first ones stand among the others. -/
theorem exists_behind_iff (seen rest : Archive) (P : Archive → ArchiveEntry → Prop) :
    (∃ before e after, seen ++ rest = before ++ e :: after ∧ seen.length ≤ before.length ∧
        P before e) ↔
      ∃ between e after, rest = between ++ e :: after ∧ P (seen ++ between) e := by
  constructor
  · rintro ⟨before, e, after, hsplit, hle, h⟩
    obtain ⟨between, rfl⟩ : seen <+: before :=
      List.prefix_of_prefix_length_le (List.prefix_append seen rest) ⟨e :: after, hsplit.symm⟩ hle
    rw [List.append_assoc] at hsplit
    exact ⟨between, e, after, List.append_cancel_left hsplit, h⟩
  · rintro ⟨between, e, after, rfl, h⟩
    refine ⟨seen ++ between, e, after, (List.append_assoc _ _ _).symm, ?_, h⟩
    rw [List.length_append]
    exact Nat.le_add_right _ _

/-- The calls behind so many others are those of the guard that they leave. -/
theorem exists_later_iff (g : Guard) (n : Nat) (f : UnpackedFile) :
    (∃ m > n, g.call m = .ok (some f)) ↔ ∃ m, (g.afterCalls (n + 1)).call m = .ok (some f) := by
  constructor
  · rintro ⟨m, hm, hcall⟩
    obtain ⟨k, rfl⟩ := Nat.exists_eq_add_of_lt hm
    rw [Nat.add_right_comm, call_add] at hcall
    exact ⟨k, hcall⟩
  · rintro ⟨k, hcall⟩
    rw [← call_add] at hcall
    exact ⟨n + 1 + k, by omega, hcall⟩

/-- **Once a call has failed for the number of the entries or for their total size, no later call
hands over a file.** A call that fails for a ratio ends nothing: the later calls hand over the files
of the later entries as if it had not failed, up to where the number or the size does end it. -/
theorem call_after_violation (t : Thresholds) (a : Archive) (n : Nat) (error : ArchiveError)
    (hviolation : error.isViolation = true) (h : (start t a).call n = .error error) :
    (error ≠ .ratioExceeded → ∀ m > n, ∀ f, (start t a).call m ≠ .ok (some f)) ∧
      ∀ f, (∃ m > n, (start t a).call m = .ok (some f)) ↔
        ∃ before e after, a = before ++ e :: after ∧
          ((start t a).afterCalls (n + 1)).visited ≤ before.length ∧ t.HandsOver before e f := by
  obtain ⟨seen, hseen, hat⟩ := isAt_afterCalls (isAt_start t a) n
  rw [List.nil_append] at hat
  obtain ⟨passed, hpassed, hlast, herror⟩ := isAt_nextOf hat (afterCalls n (start t a)).pending
  have hnext : (next (afterCalls n (start t a))).2 = afterCalls (n + 1) (start t a) :=
    (afterCalls_add n 1 _).symm
  rw [← next, hnext] at hlast hpassed
  have hsplit : a = seen ++ passed ++ (afterCalls (n + 1) (start t a)).pending := by
    rw [List.append_assoc, ← hpassed]
    exact hseen
  refine ⟨fun hne m hm f hcall => ?_, fun f => ?_⟩
  · obtain ⟨between, e, after, -, hover⟩ :=
      (exists_call_iff hlast f).1 ((exists_later_iff _ n f).1 ⟨m, hm, hcall⟩)
    exact hover.not_isExhausted (herror error h hviolation hne)
  · have hbehind := exists_behind_iff (seen ++ passed) (afterCalls (n + 1) (start t a)).pending
      fun before e => t.HandsOver before e f
    rw [← hsplit] at hbehind
    rw [exists_later_iff, exists_call_iff hlast, hlast.visited]
    exact hbehind.symm

/-- The first file is compressed too well, so the first call fails; the second one hands over the
next file. The third one fails for the number of the entries. -/
theorem call_after_violation_ratioExceeded :
    let t : Thresholds := { maxEntries := 3, maxRatio := Binary64.ofNat 3 }
    let a : Archive := [⟨"a", 1, .whole [1, 1, 1, 1]⟩, ⟨"d/", 0, .whole []⟩,
      ⟨"d/b", 2, .whole [1, 2]⟩, ⟨"c", 1, .whole [3]⟩]
    ArchiveError.isViolation .ratioExceeded = true ∧
      (start t a).call 0 = .error .ratioExceeded ∧
      (start t a).call 1 = .ok (some ⟨"d/b", [1, 2]⟩) ∧
      (start t a).call 2 = .error .tooManyEntries ∧
      (∀ m > 2, ∀ f, (start t a).call m ≠ .ok (some f)) ∧
      ∀ f, (∃ m > 0, (start t a).call m = .ok (some f)) ↔
        ∃ before e after, a = before ++ e :: after ∧
          ((start t a).afterCalls (0 + 1)).visited ≤ before.length ∧ t.HandsOver before e f := by
  intro t a
  have hratio : (start t a).call 0 = .error .ratioExceeded := by decide +kernel
  have hentries : (start t a).call 2 = .error .tooManyEntries := by decide +kernel
  exact ⟨rfl, hratio, by decide +kernel, hentries,
    (call_after_violation t a 2 .tooManyEntries rfl hentries).1 (by decide),
    (call_after_violation t a 0 .ratioExceeded rfl hratio).2⟩

/-- **A guard forgets that a ratio was exceeded**: its next call may hand over a file. -/
theorem call_after_ratioExceeded :
    ¬ ∀ (t : Thresholds) (a : Archive) (n m : Nat) (error : ArchiveError) (f : UnpackedFile),
      error.isViolation = true → (start t a).call n = .error error → n < m →
        (start t a).call m ≠ .ok (some f) := by
  intro h
  refine h { maxRatio := Binary64.ofNat 3 }
    [⟨"bomb", 1, .whole [1, 1, 1, 1]⟩, ⟨"small", 1, .whole [2]⟩] 0 1 .ratioExceeded
    ⟨"small", [2]⟩ rfl ?_ Nat.zero_lt_one ?_ <;> decide +kernel

end Guard

end ContentImport
