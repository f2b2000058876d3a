import Mathlib.Algebra.Order.Ring.Rat
import TranscriptionApi.Lib.Paging
import TranscriptionApi.Mcp.Noninterference

/-!
`list_my_transcriptions` page by page.

A client that wants all of its transcriptions asks for the offsets `0`, `L`, `2 L`
and so on below the total, where `L` is the limit the answers give. The ORDER BY
of the tool is one column, `created_at` or `duration_seconds`, and nothing decides
between rows that share its value. Each call is a query of its own, so such rows
may stand in one order for one page and in another for the next.
-/

namespace TranscriptionApi.Mcp

open Lib Python Db

/-- The transcriptions of a user that are not deleted. -/
def liveTranscriptions (db : Database) (userId : Uuid) : List Transcription :=
  scopedSelect db.transcriptions Transcription.userId userId fun r => r.deletedAt.isNone

/-- How many of the offsets `0`, `L`, `2 L`, ... are below the total. -/
def pageCount (total L : ℕ) : ℕ := (total + L - 1) / L

/-- What a client collects from these offsets, where `ords m` is the order of the
rows in the query for the page `m`. -/
def collectPages (ords : ℕ → RowOrder Transcription) (userId : Uuid) (limit : ℤ) (sort : String)
    (db : Database) (L : ℕ) : List Summary :=
  (List.range (pageCount (liveTranscriptions db userId).length L)).flatMap fun m =>
    match (listMyTranscriptions (ords m) userId limit (m * L : ℕ) sort db).1 with
    | .ok page => page.items
    | .error _ => []

/-- Every transcription once, whatever order each query has chosen. -/
def LosslessPages (userId : Uuid) (limit : ℤ) (sort : String) (db : Database) (L : ℕ) : Prop :=
  ∀ ords, (collectPages ords userId limit sort db L).Perm
    ((liveTranscriptions db userId).map serializeSummary)

/-- No group of rows with one value in the column of the ORDER BY is on both sides of
a boundary between two pages. -/
def CleanBoundaries (sort : ListSort) (rows : List Transcription) (L : ℕ) : Prop :=
  ∀ m, ∀ r ∈ rows, ¬Paging.Straddles sort.le rows r (m * L)

theorem lt_pageCount_iff {total L m : ℕ} (hL : 0 < L) : m < pageCount total L ↔ m * L < total := by
  rw [pageCount, Nat.lt_div_iff_mul_lt hL]
  omega

theorem preorders_le (sort : ListSort) : Paging.Preorders sort.le := by
  cases sort with
  | createdAtDesc =>
      exact ⟨fun a b c hab hbc => by simp only [ListSort.le, decide_eq_true_eq] at *; omega,
        fun a b => by simp only [ListSort.le, Bool.or_eq_true, decide_eq_true_eq]; omega⟩
  | createdAtAsc =>
      exact ⟨fun a b c hab hbc => by simp only [ListSort.le, decide_eq_true_eq] at *; omega,
        fun a b => by simp only [ListSort.le, Bool.or_eq_true, decide_eq_true_eq]; omega⟩
  | durationDesc =>
      refine ⟨fun a b c hab hbc => ?_, fun a b => ?_⟩
      · simp only [ListSort.le, decide_eq_true_eq] at *
        exact hbc.trans hab
      · simp only [ListSort.le, Bool.or_eq_true, decide_eq_true_eq]
        exact le_total _ _

section Pages

variable {userId : Uuid} {limit : ℤ} {sort : String} {db : Database} {sortClause : ListSort} {L : ℤ}

/-- One call, with what `clamp_or_raise` makes of the limit. -/
theorem listMyTranscriptions_ok (ord : RowOrder Transcription) (offset : ℕ)
    (hsort : listSorts sort = some sortClause)
    (hlimit : clampOrRaise limit 1 100 "limit" = .ok L) :
    ∃ page, (listMyTranscriptions ord userId limit offset sort db).1 = .ok page ∧
      page.limit = L ∧ page.total = (liveTranscriptions db userId).length ∧
      page.items = ((((ord.order (liveTranscriptions db userId)).mergeSort sortClause.le).drop
        offset).take L.toNat).map serializeSummary := by
  have hoffset : ¬(offset : ℤ) < 0 := by omega
  simp only [listMyTranscriptions, hsort, hlimit, if_neg hoffset, mcpRequestSession]
  exact ⟨_, rfl, rfl, rfl, rfl⟩

/-- The rows as the query for the page `m` has them sorted. -/
def sortedBy (ords : ℕ → RowOrder Transcription) (sortClause : ListSort) (rows : List Transcription)
    (m : ℕ) : List Transcription :=
  ((ords m).order rows).mergeSort sortClause.le

theorem collectPages_eq (ords : ℕ → RowOrder Transcription)
    (hsort : listSorts sort = some sortClause)
    (hlimit : clampOrRaise limit 1 100 "limit" = .ok L) :
    collectPages ords userId limit sort db L.toNat =
      (Paging.pages (sortedBy ords sortClause (liveTranscriptions db userId)) L.toNat
        (pageCount (liveTranscriptions db userId).length L.toNat)).map serializeSummary := by
  rw [collectPages, Paging.pages, List.map_flatMap]
  refine congrArg (fun f => List.flatMap f _) (funext fun m => ?_)
  obtain ⟨page, hpage, -, -, hitems⟩ := listMyTranscriptions_ok (ords m) (m * L.toNat) hsort hlimit
  rw [hpage]
  show page.items = _
  rw [hitems]
  rfl

theorem sortedBy_spec (ords : ℕ → RowOrder Transcription) (sortClause : ListSort)
    (rows : List Transcription) (m : ℕ) :
    (sortedBy ords sortClause rows m).Pairwise (fun a b => sortClause.le a b = true) ∧
      (sortedBy ords sortClause rows m).Perm (rows.mergeSort sortClause.le) := by
  refine ⟨List.pairwise_mergeSort (preorders_le sortClause).trans (preorders_le sortClause).total _,
    ?_⟩
  exact ((List.mergeSort_perm _ _).trans ((ords m).perm rows)).trans (List.mergeSort_perm _ _).symm

/-- The offsets below the total reach all the rows. -/
theorem le_pageCount_mul (total : ℕ) (hL : 0 < L.toNat) :
    total ≤ pageCount total L.toNat * L.toNat :=
  Nat.not_lt.mp fun h => absurd ((lt_pageCount_iff hL).mpr h) (Nat.lt_irrefl _)

theorem lossless_of_clean (hsort : listSorts sort = some sortClause)
    (hlimit : clampOrRaise limit 1 100 "limit" = .ok L)
    (hclean : CleanBoundaries sortClause (liveTranscriptions db userId) L.toNat) :
    LosslessPages userId limit sort db L.toNat := by
  intro ords
  have hL : 0 < L.toNat := by
    have := clampOrRaise_ok (by decide) hlimit
    omega
  have hle := preorders_le sortClause
  have hsorted := List.pairwise_mergeSort hle.trans hle.total (liveTranscriptions db userId)
  have hmerge := List.mergeSort_perm (liveTranscriptions db userId) sortClause.le
  rw [collectPages_eq ords hsort hlimit]
  refine List.Perm.map _ (.trans ?_ hmerge)
  have hpages := Paging.pages_perm_of_clean hle hL hsorted
    (sortedBy_spec ords sortClause (liveTranscriptions db userId)) (fun m hm => ?_)
    (pageCount (liveTranscriptions db userId).length L.toNat)
  · rwa [List.take_of_length_le (by
      rw [hmerge.length_eq]
      exact le_pageCount_mul _ hL)] at hpages
  · by_contra hboundary
    obtain ⟨a, ha, hstraddles⟩ := (Paging.not_clean_iff hle hsorted).mp hboundary
    rw [Nat.sub_add_cancel (Nat.mul_pos hm hL)] at hstraddles
    exact hclean m a (hmerge.mem_iff.mp ha) (hstraddles.perm hmerge)

/-- An order of the rows that the sort leaves as it is. -/
theorem exists_order_sorted {rows l : List Transcription} (hperm : l.Perm rows)
    (hsorted : l.Pairwise fun a b => sortClause.le a b = true) :
    ∃ ord : RowOrder Transcription, (ord.order rows).mergeSort sortClause.le = l := by
  obtain ⟨ord, hord⟩ := RowOrder.stored.exists_eq hperm
  refine ⟨ord, ?_⟩
  rw [hord]
  exact List.mergeSort_of_pairwise hsorted

/-- Two rows of the user that differ only in where they stand have different ids. -/
theorem serializeSummary_ne {init rest : List Transcription} {a b : Transcription}
    (hrows : (init ++ a :: b :: rest).Perm (liveTranscriptions db userId)) :
    serializeSummary a ≠ serializeSummary b := by
  intro heq
  have hstr : uuidStr a.id = uuidStr b.id := by
    simpa only [serializeSummary] using congrArg Summary.id heq
  have hid : a.id = b.id := uuidStr_injective hstr
  have hsub : (liveTranscriptions db userId).Sublist db.transcriptions.rows := List.filter_sublist
  have hkeys : ((liveTranscriptions db userId).map Transcription.id).Nodup :=
    db.transcriptions.keys_nodup.sublist (hsub.map _)
  have hnodup : ((init ++ a :: b :: rest).map Transcription.id).Nodup :=
    (hrows.map _).nodup_iff.mpr hkeys
  rw [List.map_append, List.nodup_append] at hnodup
  exact (List.nodup_cons.mp hnodup.2.1).1 (hid ▸ List.mem_cons_self)

theorem not_lossless_of_straddles (hsort : listSorts sort = some sortClause)
    (hlimit : clampOrRaise limit 1 100 "limit" = .ok L) {m : ℕ} {r : Transcription}
    (hr : r ∈ liveTranscriptions db userId)
    (hstraddles : Paging.Straddles sortClause.le (liveTranscriptions db userId) r (m * L.toNat)) :
    ¬LosslessPages userId limit sort db L.toNat := by
  intro hlossless
  have hL : 0 < L.toNat := by
    have := clampOrRaise_ok (by decide) hlimit
    omega
  have hle := preorders_le sortClause
  have hmerge := List.mergeSort_perm (liveTranscriptions db userId) sortClause.le
  have hsorted := List.pairwise_mergeSort hle.trans hle.total (liveTranscriptions db userId)
  have hpos : m * L.toNat - 1 + 1 = m * L.toNat :=
    Nat.sub_add_cancel (Nat.lt_of_le_of_lt (Nat.zero_le _) hstraddles.1)
  have hboundary := (Paging.not_clean_iff (k := m * L.toNat - 1) hle hsorted).mpr
    ⟨r, hmerge.mem_iff.mpr hr, by rw [hpos]; exact hstraddles.perm hmerge.symm⟩
  -- the two rows that meet on the boundary
  obtain ⟨init, a, b, rest, hsplit, hinit, hba⟩ := Paging.exists_tie_of_not_clean hboundary
  rw [hsplit] at hsorted hmerge
  have hswap : (init ++ b :: a :: rest).Perm (liveTranscriptions db userId) :=
    ((List.Perm.swap a b rest).append_left init).trans hmerge
  obtain ⟨ord, hord⟩ := exists_order_sorted hmerge hsorted
  obtain ⟨ord', hord'⟩ := exists_order_sorted hswap (Paging.pairwise_swap hsorted hba)
  have hcollected := hlossless fun i => if i < m then ord else ord'
  have hsorts : sortedBy (fun i => if i < m then ord else ord') sortClause
      (liveTranscriptions db userId) =
      fun i => if i < m then init ++ a :: b :: rest else init ++ b :: a :: rest := by
    funext i
    rw [sortedBy]
    split
    · exact hord
    · exact hord'
  rw [collectPages_eq _ hsort hlimit, hsorts, Paging.pages_of_tie _ (by rw [hinit, hpos]),
    List.take_of_length_le (by
      have hlen := hmerge.length_eq
      simp only [List.length_append, List.length_cons] at hlen ⊢
      rw [hlen]
      exact le_pageCount_mul _ hL)] at hcollected
  -- without the rows they share, the collected pages and the rows are `a` and `b`
  have hrest := hcollected.trans (hmerge.map serializeSummary).symm
  simp only [List.map_append, List.map_cons] at hrest
  have htail := List.Perm.cons_inv ((List.perm_append_left_iff _).mp hrest)
  have hsingle : [serializeSummary a].Perm [serializeSummary b] :=
    (List.perm_append_right_iff (rest.map serializeSummary)).mp htail
  exact serializeSummary_ne hmerge (List.singleton_perm_singleton.mp hsingle)

end Pages

/-- With an accepted sort and limit every page answers the limit and the total of
the rows, and the pages together have every row once exactly when no boundary
between two of them is inside a group of rows that the ORDER BY leaves equal. -/
theorem listMyTranscriptions_lossless_iff (db : Database) (userId : Uuid) {sort : String}
    {limit L : ℤ} {sortClause : ListSort} (hsort : listSorts sort = some sortClause)
    (hlimit : clampOrRaise limit 1 100 "limit" = .ok L) :
    (∀ ord, ∀ offset : ℕ, ∃ page, (listMyTranscriptions ord userId limit offset sort db).1 =
      .ok page ∧ page.limit = L ∧ page.total = (liveTranscriptions db userId).length) ∧
    (LosslessPages userId limit sort db L.toNat ↔
      CleanBoundaries sortClause (liveTranscriptions db userId) L.toNat) := by
  refine ⟨fun ord offset => ?_, fun hlossless m r hr hstraddles => ?_,
    lossless_of_clean hsort hlimit⟩
  · obtain ⟨page, hpage, hlim, htotal, -⟩ := listMyTranscriptions_ok ord offset hsort hlimit
    exact ⟨page, hpage, hlim, htotal⟩
  · exact not_lossless_of_straddles hsort hlimit hr hstraddles hlossless

/-- Two recordings of the user `1`, both of a minute. -/
def twoMinutes : Database :=
  { (default : Database) with
    transcriptions := ⟨[
      { id := 1, userId := 1, audioHash := "a", originalFilename := "monday.mp3"
        originalSizeBytes := 10, durationSeconds := 60, language := "es", numSpeakers := 1
        textContent := "hola", segments := .arr [], extraMetadata := .obj [], createdAt := 0
        deletedAt := none },
      { id := 2, userId := 1, audioHash := "b", originalFilename := "tuesday.mp3"
        originalSizeBytes := 10, durationSeconds := 60, language := "es", numSpeakers := 1
        textContent := "adios", segments := .arr [], extraMetadata := .obj [], createdAt := 1
        deletedAt := none }], by decide⟩ }

theorem liveTranscriptions_twoMinutes :
    liveTranscriptions twoMinutes 1 = twoMinutes.transcriptions.rows := by
  rw [liveTranscriptions, scopedSelect, Table.select, List.filter_eq_self]
  decide +kernel

/-- With one recording to a page, both are in one group around the boundary. -/
theorem exists_straddles_twoMinutes : ∃ r ∈ liveTranscriptions twoMinutes 1,
    Paging.Straddles ListSort.durationDesc.le (liveTranscriptions twoMinutes 1) r 1 := by
  rw [liveTranscriptions_twoMinutes]
  refine ⟨_, List.mem_cons_self, ?_⟩
  unfold Paging.Straddles
  decide +kernel

/-- On one page nothing is lost, on two pages a recording can be. -/
theorem listMyTranscriptions_lossless_iff_twoMinutes :
    LosslessPages 1 2 "duration_desc" twoMinutes 2 ∧
      ¬LosslessPages 1 1 "duration_desc" twoMinutes 1 := by
  have hsort : listSorts "duration_desc" = some .durationDesc := rfl
  constructor
  · have hlimit : clampOrRaise 2 1 100 "limit" = .ok 2 := rfl
    refine (listMyTranscriptions_lossless_iff twoMinutes 1 hsort hlimit).2.mpr ?_
    rintro m r - ⟨hlow, hhigh⟩
    have hlen := hhigh.trans_le List.countP_le_length
    rw [liveTranscriptions_twoMinutes] at hlen
    have hm2 : m * 2 < 2 := hlen
    have hm : m = 0 := by omega
    subst hm
    exact absurd hlow (Nat.not_lt_zero _)
  · have hlimit : clampOrRaise 1 1 100 "limit" = .ok 1 := rfl
    intro hlossless
    obtain ⟨r, hr, hstraddles⟩ := exists_straddles_twoMinutes
    exact (listMyTranscriptions_lossless_iff twoMinutes 1 hsort hlimit).2.mp hlossless 1 r hr
      hstraddles

/-- The pages of an accepted call are not always lossless. -/
theorem not_forall_lossless : ¬∀ (db : Database) (userId : Uuid) (sort : String)
    (sortClause : ListSort) (limit L : ℤ), listSorts sort = some sortClause →
    clampOrRaise limit 1 100 "limit" = .ok L → LosslessPages userId limit sort db L.toNat := by
  intro h
  have hsort : listSorts "duration_desc" = some .durationDesc := rfl
  have hlimit : clampOrRaise 1 1 100 "limit" = .ok 1 := rfl
  obtain ⟨r, hr, hstraddles⟩ := exists_straddles_twoMinutes
  exact not_lossless_of_straddles (m := 1) hsort hlimit hr hstraddles
    (h twoMinutes 1 "duration_desc" .durationDesc 1 1 hsort hlimit)

end TranscriptionApi.Mcp
