import Chiptune.Proofs.Image
import Chiptune.Proofs.Score.Reading
import Chiptune.Song.Load

/-!
# The shape of compiled songs

A song as such is any list of offsets beside any bytes, and asking it for a summary can go wrong: an
offset may lie past the data or behind the next one. `Song.WellLaid` gathers what rules that out and
what follows from it, down to the summary. `Song.compile_wellLaid` says that every song that comes
out of the compiler, titled or not, is well laid; it rests on the tracks of its score starting where
two bytes can say, which the reader checks before each track.
-/

namespace Chiptune

/-- A song whose tracks divide its data. -/
structure Song.WellLaid (song : Song) : Prop where
  one_le_trackCount : 1 ≤ song.trackCount
  trackCount_le : song.trackCount ≤ 255
  first_offset : song.offsets[0]? = some 0
  offsets_mono : song.offsets.Pairwise (· ≤ ·)
  offset_le : ∀ offset ∈ song.offsets, offset.toNat ≤ song.data.length
  imageLength_eq : song.imageLength = 1 + 2 * song.trackCount + 4 + song.data.length
  toImage_ok : ∃ image, song.toImage = .ok image ∧ image.length = song.imageLength
  span_some : ∀ index < song.trackCount, ∃ span, song.trackSpan? index = some span ∧
    span.start ≤ span.stop ∧ span.stop ≤ song.data.length
  span_none : ∀ index, song.trackCount ≤ index → song.trackSpan? index = none
  slices : ∃ slices : List (List UInt8), (List.range song.trackCount).mapM
    (fun index => (song.trackSpan? index).bind (·.slice? song.data)) = some slices ∧
    slices.flatten = song.data
  summary_ok : ∃ summary, song.summary? true = some summary ∧
    summary.dataLength = song.data.length ∧
    (summary.tracks.map TrackSummary.length).sum = summary.dataLength ∧
    summary.tracks.flatMap TrackSummary.bytes = song.data

/-- Collecting values that are there, one for each index of a list. -/
theorem mapM_range_eq_some {α : Type} {find : Nat → Option α} {items : List α}
    (hfind : ∀ (index : Nat) (hindex : index < items.length), find index = some items[index]) :
    (List.range items.length).mapM find = some items := by
  induction items generalizing find with
  | nil => rfl
  | cons item items ih =>
    have hfirst : find 0 = some item := hfind 0 (Nat.zero_lt_succ _)
    have hrest : (List.range items.length).mapM (find ∘ Nat.succ) = some items :=
      ih fun index hindex => hfind (index + 1) (Nat.succ_lt_succ hindex)
    rw [List.length_cons, List.range_succ_eq_map, List.mapM_cons, hfirst, List.mapM_map, hrest]
    rfl

/-- Values that are all there can be collected. -/
theorem exists_mapM_eq_some {α β : Type} {find : α → Option β} {items : List α}
    (hfind : ∀ item ∈ items, ∃ found, find item = some found) :
    ∃ all, items.mapM find = some all := by
  induction items with
  | nil => exact ⟨[], rfl⟩
  | cons item items ih =>
    obtain ⟨found, hfound⟩ := hfind item List.mem_cons_self
    obtain ⟨all, hall⟩ := ih fun other hother => hfind other (List.mem_cons_of_mem _ hother)
    refine ⟨found :: all, ?_⟩
    rw [List.mapM_cons, hfound, hall]
    rfl

namespace Score

variable {score : Score}

/-- The slices of a laid out score are the bytes of its tracks. -/
theorem mapM_slice?_toSong (hfits : score.Fits) :
    (List.range score.toSong.trackCount).mapM
      (fun index => (score.toSong.trackSpan? index).bind (·.slice? score.toSong.data)) =
      some (score.tracks.map Track.encode) := by
  rw [trackCount_toSong, ← List.length_map Track.encode]
  apply mapM_range_eq_some
  intro index hindex
  rw [List.length_map] at hindex
  rw [trackSpan?_toSong hfits hindex, Option.bind_some, slice?_toSong hindex, List.getElem_map]

def trackSummaries (score : Score) : List TrackSummary :=
  score.tracks.mapIdx fun index track =>
    ⟨index, UInt16.ofNat (startOf score.tracks index), track.encode.length, track.encode⟩

theorem summary?_toSong (hfits : score.Fits) :
    score.toSong.summary? true = some ⟨score.title, score.entry, score.toSong.offsets,
      score.toSong.data.length, score.toSong.imageLength, score.trackSummaries⟩ := by
  have hindexed : score.toSong.offsets.mapIdx (fun index offset => (index, offset)) =
      (List.range score.tracks.length).map fun index =>
        (index, UInt16.ofNat (startOf score.tracks index)) := by
    apply List.ext_getElem <;> simp [offsets_toSong]
  have hlength : score.tracks.length = score.trackSummaries.length := by simp [trackSummaries]
  have htracks : (List.range score.tracks.length).mapM (fun index =>
      score.toSong.trackSummary? true index (UInt16.ofNat (startOf score.tracks index))) =
      some score.trackSummaries := by
    rw [hlength]
    apply mapM_range_eq_some
    intro index hindex
    rw [← hlength] at hindex
    simp only [Song.trackSummary?, trackSpan?_toSong hfits hindex, if_true, Option.bind_eq_bind,
      Option.bind_some, slice?_toSong hindex, Option.pure_def, trackSummaries,
      List.getElem_mapIdx, length_span hindex]
  rw [Song.summary?, hindexed, List.mapM_map]
  simp only [Function.comp_def, htracks]
  rfl

/-- With the bytes of the tracks or without, a score that fits has a summary. -/
theorem exists_summary (hfits : score.Fits) (withBytes : Bool) :
    ∃ summary, score.toSong.summary? withBytes = some summary := by
  have htrack : ∀ entry ∈ score.toSong.offsets.mapIdx fun index offset => (index, offset),
      ∃ track, score.toSong.trackSummary? withBytes entry.1 entry.2 = some track := by
    intro entry hentry
    obtain ⟨index, hindex, rfl⟩ := List.mem_mapIdx.1 hentry
    have hcount : index < score.tracks.length := by
      rw [← trackCount_toSong]
      exact hindex
    cases withBytes with
    | false => simp [Song.trackSummary?, trackSpan?_toSong hfits hcount]
    | true => simp [Song.trackSummary?, trackSpan?_toSong hfits hcount, slice?_toSong hcount]
  obtain ⟨tracks, htracks⟩ := exists_mapM_eq_some htrack
  rw [Song.summary?, htracks]
  exact ⟨_, rfl⟩

theorem sum_length_trackSummaries (score : Score) :
    (score.trackSummaries.map TrackSummary.length).sum = score.toSong.data.length := by
  have hmap : score.trackSummaries.map TrackSummary.length =
      score.tracks.map fun track => track.encode.length := by
    apply List.ext_getElem <;> simp [trackSummaries]
  rw [hmap, toSong, List.length_flatMap]

theorem flatMap_bytes_trackSummaries (score : Score) :
    score.trackSummaries.flatMap TrackSummary.bytes = score.toSong.data := by
  have hmap : score.trackSummaries.map TrackSummary.bytes = score.tracks.map Track.encode := by
    apply List.ext_getElem <;> simp [trackSummaries]
  rw [List.flatMap_def, hmap, ← List.flatMap_def]
  rfl

theorem pairwise_offsets_toSong (hfits : score.Fits) :
    score.toSong.offsets.Pairwise (· ≤ ·) := by
  rw [offsets_toSong, List.pairwise_map]
  refine List.Pairwise.imp_of_mem ?_ List.pairwise_lt_range
  intro index index' hindex hindex' hlt
  rw [UInt16.le_iff_toNat_le, toNat_ofNat_startOf hfits (List.mem_range.1 hindex),
    toNat_ofNat_startOf hfits (List.mem_range.1 hindex')]
  exact startOf_mono _ (Nat.le_of_lt hlt)

theorem toImage_toSong (hfits : score.Fits) :
    ∃ image, score.toSong.toImage = .ok image ∧ image.length = score.toSong.imageLength := by
  have hlength : score.toSong.offsets.length = score.tracks.length := trackCount_toSong score
  apply Image.exists_write
  · rw [hlength]
    exact hfits.one_le_length
  · rw [hlength]
    exact hfits.length_le

/-- A score that fits is laid out well. -/
theorem wellLaid_toSong (hfits : score.Fits) : score.toSong.WellLaid where
  one_le_trackCount := by
    rw [trackCount_toSong]
    exact hfits.one_le_length
  trackCount_le := by
    rw [trackCount_toSong]
    exact hfits.length_le
  first_offset := getElem?_offsets_toSong hfits.one_le_length
  offsets_mono := pairwise_offsets_toSong hfits
  offset_le := by
    intro offset hoffset
    rw [offsets_toSong, List.mem_map] at hoffset
    obtain ⟨index, hindex, rfl⟩ := hoffset
    have hlt := List.mem_range.1 hindex
    rw [toNat_ofNat_startOf hfits hlt]
    exact startOf_le_length (Nat.le_of_lt hlt)
  imageLength_eq := by
    rw [Song.imageLength, Image.length, Song.trackCount]
    omega
  toImage_ok := toImage_toSong hfits
  span_some := by
    intro index hindex
    rw [trackCount_toSong] at hindex
    exact ⟨_, trackSpan?_toSong hfits hindex, startOf_mono _ (Nat.le_succ index),
      startOf_le_length (Nat.succ_le_of_lt hindex)⟩
  span_none := by
    intro index hindex
    rw [trackCount_toSong] at hindex
    exact trackSpan?_toSong_of_le hindex
  slices := ⟨_, mapM_slice?_toSong hfits, List.flatMap_def.symm⟩
  summary_ok := ⟨_, summary?_toSong hfits, rfl, sum_length_trackSummaries score,
    flatMap_bytes_trackSummaries score⟩

end Score

/-- Behind a compiled song there is a score that fits. -/
theorem Song.exists_fits_of_compile {text : List Char} {song : Song}
    (hcompile : Song.compile text = .ok song) : ∃ score : Score, score.Fits ∧ score.toSong = song := by
  obtain ⟨mark, body, sheet, -, -, -, rfl⟩ := Song.compile_eq_ok_iff.1 hcompile
  exact ⟨sheet.score (Score.titleOf? body), sheet.fits_score _, sheet.toSong_score _⟩

theorem Song.exists_image_of_compile {text : List Char} {song : Song}
    (hcompile : Song.compile text = .ok song) : ∃ image, song.toImage = .ok image := by
  obtain ⟨score, hfits, rfl⟩ := Song.exists_fits_of_compile hcompile
  obtain ⟨image, himage, -⟩ := Score.toImage_toSong hfits
  exact ⟨image, himage⟩

theorem Song.exists_text_of_compileFeed? {maxTextSize : UInt64} {feed : Feed} {song : Song}
    (hcompile : Song.compileFeed? maxTextSize feed = some (.ok song)) :
    ∃ text, Song.compile text = .ok song := by
  obtain ⟨readLimit, -, hread⟩ := Option.map_eq_some_iff.1 hcompile
  simp only [Song.compileRead, bind_eq_ok_iff] at hread
  obtain ⟨bytes, _, _, _, hbytes⟩ := hread
  unfold Song.compileBytes at hbytes
  split at hbytes
  · next text _ => exact ⟨text, hbytes⟩
  · cases hbytes

theorem Song.exists_text_of_compileFile? {maxTextSize : UInt64} {directory : Directory}
    {path : String} {song : Song}
    (hcompile : Song.compileFile? maxTextSize directory path = some (.ok song)) :
    ∃ text, Song.compile text = .ok song := by
  unfold Song.compileFile? at hcompile
  split at hcompile
  · cases hcompile
  · cases hcompile
  · unfold Song.compileFileBytes? at hcompile
    split at hcompile
    · cases hcompile
    · exact Song.exists_text_of_compileFeed? hcompile

theorem Song.compile_wellLaid {text : List Char} {song : Song}
    (hcompile : Song.compile text = .ok song) : song.WellLaid := by
  obtain ⟨score, hfits, rfl⟩ := Song.exists_fits_of_compile hcompile
  exact Score.wellLaid_toSong hfits

/-- A song with a title, an empty track and one that starts where the empty one does. -/
theorem Song.compile_wellLaid_emptyTrack :
    Song.WellLaid ⟨some "Two", #v[0, 0, 0, 0], [0, 0], [1, 160]⟩ := by
  have hcompile : Song.compile
      "ATM1 NAME Two\nENTRY 0 0 0 0 TRACK ENDTRACK TRACK NOTE 1 DELAY 1 ENDTRACK END".toList =
      .ok ⟨some "Two", #v[0, 0, 0, 0], [0, 0], [1, 160]⟩ := by decide +kernel
  exact Song.compile_wellLaid hcompile

end Chiptune
