import Chiptune.Score.Reader
import Chiptune.Song.Summary

/-!
# Where tracks lie

`Score.toSong` puts tracks one after the other and notes where each starts in sixteen bits. If the
starts fit there, which is what `Score.Fits` says, the notes are exact: the stretch of a track runs
from its start to the start of the next one, and its bytes are those of the track alone
(`trackSpan?_toSong`, `slice?_toSong`).
-/

namespace Chiptune.Score

/-- Where the track at `index` starts: the number of bytes of the tracks in front of it. -/
def startOf (tracks : List Track) (index : Nat) : Nat :=
  ((tracks.take index).flatMap Track.encode).length

theorem startOf_zero (tracks : List Track) : startOf tracks 0 = 0 := rfl

theorem startOf_cons_succ (track : Track) (tracks : List Track) (index : Nat) :
    startOf (track :: tracks) (index + 1) = track.encode.length + startOf tracks index := by
  simp [startOf]

theorem startOf_succ {tracks : List Track} {index : Nat} (hindex : index < tracks.length) :
    startOf tracks (index + 1) = startOf tracks index + tracks[index].encode.length := by
  rw [startOf, List.take_succ_eq_append_getElem hindex, List.flatMap_append, List.length_append,
    List.flatMap_singleton, startOf]

theorem startOf_length (tracks : List Track) :
    startOf tracks tracks.length = (tracks.flatMap Track.encode).length := by
  rw [startOf, List.take_length]

theorem startOf_mono (tracks : List Track) {index index' : Nat} (hle : index ≤ index') :
    startOf tracks index ≤ startOf tracks index' := by
  obtain ⟨more, rfl⟩ := Nat.exists_eq_add_of_le hle
  rw [startOf, startOf, List.take_add, List.flatMap_append, List.length_append]
  exact Nat.le_add_right _ _

theorem startOf_le_length {tracks : List Track} {index : Nat} (hindex : index ≤ tracks.length) :
    startOf tracks index ≤ (tracks.flatMap Track.encode).length := by
  rw [← startOf_length]
  exact startOf_mono tracks hindex

theorem length_span {tracks : List Track} {index : Nat} (hindex : index < tracks.length) :
    (Span.mk (startOf tracks index) (startOf tracks (index + 1))).length =
      tracks[index].encode.length := by
  rw [Span.length, startOf_succ hindex, Nat.add_sub_cancel_left]

theorem flatMap_encode_eq {tracks : List Track} {index : Nat} (hindex : index < tracks.length) :
    tracks.flatMap Track.encode = (tracks.take index).flatMap Track.encode ++
      (tracks[index].encode ++ (tracks.drop (index + 1)).flatMap Track.encode) := by
  conv => lhs; rw [← List.take_append_drop index tracks, List.drop_eq_getElem_cons hindex]
  rw [List.flatMap_append, List.flatMap_cons]

/-- A score that can be laid out: it has a permitted number of tracks, and each of them starts where
two bytes can say. -/
structure Fits (score : Score) : Prop where
  one_le_length : 1 ≤ score.tracks.length
  length_le : score.tracks.length ≤ maxTracks
  startOf_le : ∀ index < score.tracks.length, startOf score.tracks index ≤ maxOffset

theorem offsetsFrom_eq (start : Nat) (tracks : List Track) :
    offsetsFrom start tracks =
      (List.range tracks.length).map fun index => UInt16.ofNat (start + startOf tracks index) := by
  induction tracks generalizing start with
  | nil => rfl
  | cons track tracks ih =>
    rw [offsetsFrom, ih, List.length_cons, List.range_succ_eq_map, List.map_cons, List.map_map,
      startOf_zero, Nat.add_zero]
    congr 2
    funext index
    rw [Function.comp, startOf_cons_succ, Nat.add_assoc]

theorem offsets_toSong (score : Score) :
    score.toSong.offsets = (List.range score.tracks.length).map fun index =>
      UInt16.ofNat (startOf score.tracks index) := by
  simp only [toSong, offsetsFrom_eq, Nat.zero_add]

theorem trackCount_toSong (score : Score) : score.toSong.trackCount = score.tracks.length := by
  rw [Song.trackCount, offsets_toSong, List.length_map, List.length_range]

theorem getElem?_offsets_toSong {score : Score} {index : Nat}
    (hindex : index < score.tracks.length) :
    score.toSong.offsets[index]? = some (UInt16.ofNat (startOf score.tracks index)) := by
  simp [offsets_toSong, hindex]

theorem getElem?_offsets_toSong_of_le {score : Score} {index : Nat}
    (hindex : score.tracks.length ≤ index) : score.toSong.offsets[index]? = none := by
  simp [offsets_toSong, hindex]

variable {score : Score} (hfits : score.Fits)

include hfits in
theorem toNat_ofNat_startOf {index : Nat} (hindex : index < score.tracks.length) :
    (UInt16.ofNat (startOf score.tracks index)).toNat = startOf score.tracks index := by
  have hle : startOf score.tracks index ≤ 65535 := hfits.startOf_le index hindex
  exact UInt16.toNat_ofNat_of_lt (by simp only [UInt16.size]; omega)

include hfits in
/-- A track runs from its start to that of the next one. -/
theorem trackSpan?_toSong {index : Nat} (hindex : index < score.tracks.length) :
    score.toSong.trackSpan? index =
      some ⟨startOf score.tracks index, startOf score.tracks (index + 1)⟩ := by
  rw [Song.trackSpan?, getElem?_offsets_toSong hindex]
  by_cases hnext : index + 1 < score.tracks.length
  · simp only [getElem?_offsets_toSong hnext, toNat_ofNat_startOf hfits hindex,
      toNat_ofNat_startOf hfits hnext]
  · have hlast : score.tracks.length = index + 1 := by omega
    simp only [getElem?_offsets_toSong_of_le (Nat.le_of_not_lt hnext),
      toNat_ofNat_startOf hfits hindex]
    rw [← hlast, startOf_length]
    rfl

theorem trackSpan?_toSong_of_le {index : Nat} (hindex : score.tracks.length ≤ index) :
    score.toSong.trackSpan? index = none := by
  rw [Song.trackSpan?, getElem?_offsets_toSong_of_le hindex]

/-- The stretch of a track lies within the data and holds the bytes of the track. -/
theorem slice?_toSong {index : Nat} (hindex : index < score.tracks.length) :
    (Span.mk (startOf score.tracks index) (startOf score.tracks (index + 1))).slice?
      score.toSong.data = some score.tracks[index].encode := by
  have hstop := startOf_le_length (Nat.succ_le_of_lt hindex)
  have hmono := startOf_mono score.tracks (Nat.le_succ index)
  rw [Span.slice?, if_pos ⟨hmono, hstop⟩, length_span hindex]
  simp only [toSong, flatMap_encode_eq hindex]
  rw [startOf, List.drop_left, List.take_left]

end Chiptune.Score
