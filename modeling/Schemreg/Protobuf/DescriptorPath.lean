import Schemreg.Protobuf.Model
import Schemreg.Wire.RoundTrip

/-
  Descriptor paths, index paths and the type check of the decoder.

  A path is taken exactly if it is the chain of some positions that are not negative
  (`pathFrom_eq_ok`), and the index path is those positions, so different paths have
  different index paths. Over the wire nothing is lost (`decodeIndexes_put`), and the decoder
  takes a frame exactly if it was written for its own descriptor (`type_check_exact`).
-/

namespace Schemreg.Protobuf

open Checked Wire

/-- The segments of nested types. -/
def segments (is : List Int32) : List Int32 := is.flatMap fun j => [nestedTypeField, j]

/-- The path of the message at `i`, and below it at each of the positions `is`. -/
def chain (i : Int32) (is : List Int32) : List Int32 :=
  fileMessageTypeField :: i :: segments is

variable {path rest is : List Int32} {name : String} {level : Nat} {v : List UInt32}

@[simp] theorem segments_nil : segments [] = [] := rfl

@[simp] theorem segments_cons (j : Int32) (is : List Int32) :
    segments (j :: is) = nestedTypeField :: j :: segments is := rfl

theorem length_segments (is : List Int32) : (segments is).length = 2 * is.length := by
  induction is with
  | nil => rfl
  | cons j is ih =>
    rw [segments_cons, List.length_cons, List.length_cons, List.length_cons, ih]
    omega

theorem segments_inj {is js : List Int32} (h : segments is = segments js) : is = js := by
  induction is generalizing js with
  | nil =>
    cases js with
    | nil => rfl
    | cons j js => cases h
  | cons i is ih =>
    cases js with
    | nil => cases h
    | cons j js =>
      rw [segments_cons, segments_cons] at h
      obtain ⟨-, htail⟩ := List.cons.inj h
      obtain ⟨hij, hrest⟩ := List.cons.inj htail
      rw [hij, ih hrest]

/-- Segments in pairs, all of nested types. -/
theorem checkNested_eq_ok (heven : rest.length % 2 = 0) :
    checkNested name ((asChunks rest).zipIdx level) = .ok () ↔ ∃ is, rest = segments is := by
  induction rest using asChunks.induct generalizing level with
  | case1 a b rest ih =>
    have htail : rest.length % 2 = 0 := by
      rw [List.length_cons, List.length_cons] at heven
      omega
    rw [asChunks, List.zipIdx_cons, checkNested]
    dsimp only
    by_cases ha : a = nestedTypeField
    · rw [if_neg (by simpa using ha), ih htail]
      constructor
      · rintro ⟨is, rfl⟩
        exact ⟨b :: is, by rw [segments_cons, ha]⟩
      · rintro ⟨is, his⟩
        cases is with
        | nil => cases his
        | cons j is =>
          rw [segments_cons] at his
          exact ⟨is, (List.cons.inj (List.cons.inj his).2).2⟩
    · rw [if_pos ha]
      constructor
      · intro h
        cases h
      · rintro ⟨is, his⟩
        cases is with
        | nil => cases his
        | cons j is => exact absurd (List.cons.inj his).1 ha
  | case2 rest hne =>
    -- fewer than two numbers, and not one
    cases rest with
    | nil => exact ⟨fun _ => ⟨[], rfl⟩, fun _ => rfl⟩
    | cons a tail =>
      cases tail with
      | nil => simp at heven
      | cons b tail => exact absurd rfl (hne a b tail)

theorem stepBy2_segments (i : Int32) (is : List Int32) :
    stepBy2 (i :: segments is) = i :: is := by
  induction is generalizing i with
  | nil => rfl
  | cons j is ih => rw [segments_cons, stepBy2, ih]

/-- The number of a position. -/
theorem toNat_position {i : Int32} (h : 0 ≤ i.toInt) : (i.toUInt32.toNat : Int) = i.toInt := by
  have hle : 0 ≤ i := Int32.le_iff_toInt_le.mpr h
  rw [Int32.toNat_toUInt32_of_le hle]
  exact Int.toNat_of_nonneg h

theorem positions_eq_ok : positions name is = .ok v ↔
    (∀ i ∈ is, 0 ≤ i.toInt) ∧ v.map (fun n => (n.toNat : Int)) = is.map Int32.toInt := by
  induction is generalizing v with
  | nil =>
    constructor
    · intro h
      cases h
      exact ⟨by simp, rfl⟩
    · rintro ⟨-, h⟩
      rw [List.map_eq_nil_iff.mp h]
      rfl
  | cons i is ih =>
    unfold positions
    by_cases hi : i.toInt < 0
    · rw [if_pos hi]
      constructor
      · intro h
        cases h
      · rintro ⟨hall, -⟩
        exact absurd (hall i (by simp)) (by omega)
    · rw [if_neg hi, Outcome.bind_eq_ok]
      have hnumber := toNat_position (Int.not_lt.mp hi)
      constructor
      · rintro ⟨tail, htail, hv⟩
        cases hv
        obtain ⟨hall, hmap⟩ := ih.mp htail
        refine ⟨?_, by rw [List.map_cons, List.map_cons, hmap, hnumber]⟩
        intro j hj
        rcases List.mem_cons.mp hj with rfl | hj
        · exact Int.not_lt.mp hi
        · exact hall j hj
      · rintro ⟨hall, hmap⟩
        cases v with
        | nil => cases hmap
        | cons n v =>
          obtain ⟨hhead, htail⟩ := List.cons.inj hmap
          refine ⟨v, ih.mpr ⟨fun j hj => hall j (List.mem_cons_of_mem _ hj), htail⟩, ?_⟩
          have hn : n = i.toUInt32 := by
            rw [← UInt32.toNat_inj]
            dsimp only at hhead
            omega
          rw [hn]

/-- A path of an even number of at least two elements. -/
theorem pathFrom_cons {a i : Int32} (heven : rest.length % 2 = 0) :
    messageIndexPathFrom (a :: i :: rest) name = .ok v ↔
      a = fileMessageTypeField ∧ ∃ is, rest = segments is ∧
        positions name (i :: is) = .ok v := by
  have hlen : ¬ ((a :: i :: rest).length < 2 ∨ (a :: i :: rest).length % 2 ≠ 0) := by
    rw [List.length_cons, List.length_cons]
    omega
  have hindex : (index (a :: i :: rest) 0 : Decoding Int32) = .ok a := rfl
  have hchunks : (asChunks (a :: i :: rest)).zipIdx.drop 1 = (asChunks rest).zipIdx 1 := rfl
  unfold messageIndexPathFrom
  rw [if_neg hlen, hindex, Outcome.bind_ok, hchunks]
  by_cases ha : a = fileMessageTypeField
  · rw [if_neg (by simpa using ha)]
    constructor
    · intro h
      obtain ⟨⟨⟩, hnested, hpositions⟩ := Outcome.bind_eq_ok.mp h
      obtain ⟨is, rfl⟩ := (checkNested_eq_ok heven).mp hnested
      refine ⟨ha, is, rfl, ?_⟩
      rwa [List.drop_one, List.tail_cons, stepBy2_segments] at hpositions
    · rintro ⟨-, is, rfl, hpositions⟩
      rw [(checkNested_eq_ok heven).mpr ⟨is, rfl⟩, Outcome.bind_ok, List.drop_one,
        List.tail_cons, stepBy2_segments]
      exact hpositions
  · rw [if_pos ha]
    constructor
    · intro h
      cases h
    · rintro ⟨hfield, -⟩
      exact absurd hfield ha

/-- `message_index_path_from` takes the chains of positions, and returns the positions. -/
theorem pathFrom_eq_ok : messageIndexPathFrom path name = .ok v ↔
    ∃ i is, path = chain i is ∧ (∀ j ∈ i :: is, 0 ≤ j.toInt) ∧
      v.map (fun n => (n.toNat : Int)) = (i :: is).map Int32.toInt := by
  have hshort : (∃ e, messageIndexPathFrom path name = .err e) →
      (∀ i is, path ≠ chain i is) →
      (messageIndexPathFrom path name = .ok v ↔ ∃ i is, path = chain i is ∧
        (∀ j ∈ i :: is, 0 ≤ j.toInt) ∧
        v.map (fun n => (n.toNat : Int)) = (i :: is).map Int32.toInt) := by
    rintro ⟨e, he⟩ hne
    constructor
    · intro h
      rw [he] at h
      cases h
    · rintro ⟨i, is, hpath, -⟩
      exact absurd hpath (hne i is)
  match path with
  | [] => exact hshort ⟨_, rfl⟩ (fun i is h => by cases h)
  | [a] => exact hshort ⟨_, rfl⟩ (fun i is h => by cases h)
  | a :: i :: rest =>
    by_cases heven : rest.length % 2 = 0
    · rw [pathFrom_cons heven]
      constructor
      · rintro ⟨rfl, is, rfl, hpositions⟩
        exact ⟨i, is, rfl, positions_eq_ok.mp hpositions⟩
      · rintro ⟨j, is, hpath, hpositions⟩
        cases hpath
        exact ⟨rfl, is, rfl, positions_eq_ok.mpr hpositions⟩
    · refine hshort ⟨_, if_pos (Or.inr ?_)⟩ ?_
      · rw [List.length_cons, List.length_cons]
        omega
      · intro j is h
        have hlen := congrArg List.length h
        rw [chain, List.length_cons, List.length_cons, List.length_cons, List.length_cons,
          length_segments] at hlen
        omega

/-- Two paths with one index path are one path, whatever their names. -/
theorem pathFrom_inj {path' : List Int32} {name' : String}
    (h : messageIndexPathFrom path name = .ok v)
    (h' : messageIndexPathFrom path' name' = .ok v) : path = path' := by
  obtain ⟨i, is, rfl, -, hv⟩ := pathFrom_eq_ok.mp h
  obtain ⟨j, js, rfl, -, hv'⟩ := pathFrom_eq_ok.mp h'
  have hinj : Function.Injective Int32.toInt := fun _ _ h => Int32.toInt_inj.mp h
  have heq : i :: is = j :: js := hinj.list_map (hv.symm.trans hv')
  obtain ⟨rfl, rfl⟩ := List.cons.inj heq
  rfl

/-- The name of a descriptor has no part in its index path. -/
theorem pathFrom_unique {name' : String} {w : List UInt32}
    (h : messageIndexPathFrom path name = .ok v) (h' : messageIndexPathFrom path name' = .ok w) :
    v = w := by
  obtain ⟨i, is, rfl, -, hv⟩ := pathFrom_eq_ok.mp h
  obtain ⟨j, js, hchain, -, hw⟩ := pathFrom_eq_ok.mp h'
  obtain ⟨rfl, hsegments⟩ := List.cons.inj (List.cons.inj hchain).2
  rw [segments_inj hsegments] at hv
  have hinj : Function.Injective fun n : UInt32 => (n.toNat : Int) := fun _ _ h =>
    UInt32.toNat_inj.mp (Int.ofNat.inj h)
  exact hinj.list_map (hv.trans hw.symm)

/-- An index path has a level for each two elements of its path, and at least one. -/
theorem length_of_pathFrom (h : messageIndexPathFrom path name = .ok v) :
    path.length = 2 * v.length ∧ v ≠ [] := by
  obtain ⟨i, is, rfl, -, hv⟩ := pathFrom_eq_ok.mp h
  have hlen := congrArg List.length hv
  rw [List.length_map, List.length_map, List.length_cons] at hlen
  refine ⟨?_, ?_⟩
  · rw [chain, List.length_cons, List.length_cons, length_segments]
    omega
  · rintro rfl
    cases hlen

/-! ## The type check -/

variable {key : SchemaKey} {payload : Bytes} {p q : MessageDescriptor}
  {self decoder : ProtobufSchemaDecoder} {w : List UInt32}

theorem withExpectedDescriptor_eq_ok : self.withExpectedDescriptor q = .ok decoder ↔
    ∃ w, messageIndexPath q = .ok w ∧
      decoder = ⟨some w, some q.fullName⟩ := by
  unfold ProtobufSchemaDecoder.withExpectedDescriptor
  rw [Outcome.bind_eq_ok]
  constructor
  · rintro ⟨w, hw, h⟩
    cases h
    exact ⟨w, hw, rfl⟩
  · rintro ⟨w, hw, rfl⟩
    exact ⟨w, hw, rfl⟩

/-- A frame in front of a decoder that expects an index path. -/
theorem unframe_frame (hlen : v.length ≤ 512) (hv : v ≠ []) (w : List UInt32)
    (expected : Option String) :
    (⟨some w, expected⟩ : ProtobufSchemaDecoder).unframe
        (encodeProtobufWireFormat key v payload) =
      if v ≠ w then .err ((⟨some w, expected⟩ : ProtobufSchemaDecoder).mismatch v w)
      else .ok ⟨key, v, payload⟩ := by
  have hstart : decodeWireFormatBytes (encodeProtobufWireFormat key v payload) =
      .ok (key, putMessageIndexes v ++ payload) := by
    unfold encodeProtobufWireFormat
    rw [List.append_assoc]
    exact decodeWireFormat_append key _
  have hread : readAs v = v := if_neg hv
  have hpayload : (sliceFrom (putMessageIndexes v ++ payload) (putMessageIndexes v).length :
      Decoding Bytes) = .ok payload := by
    rw [sliceFrom_of_le (by rw [List.length_append]; omega), List.drop_left]
  unfold ProtobufSchemaDecoder.unframe
  rw [hstart, Outcome.bind_ok]
  dsimp only
  rw [decodeIndexes_put hlen, hread, Outcome.bind_ok]
  dsimp only
  rw [hpayload]
  rfl

/-- The type check is exact, from the descriptor to the frame and back. -/
theorem type_check_exact :
    (∀ path name v, messageIndexPathFrom path name = .ok v ↔
      ∃ i is, path = chain i is ∧ (∀ j ∈ i :: is, 0 ≤ j.toInt) ∧
        v.map (fun n => (n.toNat : Int)) = (i :: is).map Int32.toInt) ∧
    (∀ path path' name name' v, messageIndexPathFrom path name = .ok v →
      messageIndexPathFrom path' name' = .ok v → path = path') ∧
    ∀ (p q : MessageDescriptor) (v : List UInt32) (self decoder : ProtobufSchemaDecoder),
      messageIndexPath p = .ok v → self.withExpectedDescriptor q = .ok decoder →
      p.path.length ≤ 2 * 512 → q.path.length ≤ 2 * 512 → ∀ (key : SchemaKey) (payload : Bytes),
        ((decoder.unframe (encodeProtobufWireFormat key v payload)).IsOk ↔ p.path = q.path) ∧
        (p.path = q.path → decoder.unframe (encodeProtobufWireFormat key v payload) =
          .ok ⟨key, v, payload⟩) := by
  refine ⟨fun path name v => pathFrom_eq_ok, fun _ _ _ _ _ h h' => pathFrom_inj h h', ?_⟩
  intro p q v self decoder hp hq hlevels _ key payload
  obtain ⟨w, hw, rfl⟩ := withExpectedDescriptor_eq_ok.mp hq
  obtain ⟨hlen, hne⟩ := length_of_pathFrom hp
  have hsame : v = w ↔ p.path = q.path := by
    constructor
    · rintro rfl
      exact pathFrom_inj hp hw
    · intro hpath
      unfold messageIndexPath at hp
      rw [hpath] at hp
      exact pathFrom_unique hp hw
  rw [unframe_frame (by omega) hne]
  by_cases hvw : v = w
  · rw [if_neg (by simpa using hvw)]
    exact ⟨⟨fun _ => hsame.mp hvw, fun _ => ⟨_, rfl⟩⟩, fun _ => rfl⟩
  · have hpath : p.path ≠ q.path := fun h => hvw (hsame.mpr h)
    rw [if_pos hvw]
    exact ⟨⟨fun h => absurd h (Outcome.not_isOk_err _), fun h => absurd h hpath⟩,
      fun h => absurd h hpath⟩

/-- The second message nested in the first one, and a decoder for the first one alone. -/
theorem nested_is_not_outer :
    ((⟨some [0], some "Outer"⟩ : ProtobufSchemaDecoder).unframe
      (encodeProtobufWireFormat (.id ⟨7⟩) [0, 1] [0x0A])).IsOk ↔ [4, 0, 3, 1] = [(4 : Int32), 0] :=
  (type_check_exact.2.2 ⟨[4, 0, 3, 1], "Outer.Inner"⟩ ⟨[4, 0], "Outer"⟩ [0, 1] .new
    ⟨some [0], some "Outer"⟩ rfl rfl (by decide) (by decide) (.id ⟨7⟩) [0x0A]).1

end Schemreg.Protobuf
