import VpTesting.PipeTestingCommunication

namespace VpTesting.StreamPositions

open VpTesting.ByteMemory VpTesting.Types VpTesting.TestingCommunication VpTesting.Pipe
  VpTesting.PipeFrames VpTesting.ReceiveLoop VpTesting.PipeTestingCommunication

variable {o : ReadOutcome} {pipe : List UInt8}

/-- What a read returns is what it took from the front of the pipe. -/
theorem read_append {count : Nat} {r : ReadResult UInt8} (hr : Pipe.read o count pipe = some r) :
    pipe = r.bytes.getD [] ++ r.pipe := by
  cases o with
  | error | empty =>
    obtain rfl := Option.some.inj hr
    rfl
  | data more =>
    unfold Pipe.read at hr
    simp only at hr
    split at hr
    · cases hr
    · obtain rfl := Option.some.inj hr
      exact (List.take_append_drop _ pipe).symm

/-- So is what the read of a header returns, which is a header if it is five bytes. -/
theorem readHeader_append {header : Option (UInt8 × UInt32)} {left : List UInt8}
    (hr : readHeader o pipe = some (header, left)) :
    ∃ bytes, pipe = bytes ++ left ∧ ∀ first dataLength, header = some (first, dataLength) →
      bytes.length = 5 ∧ dataLength = (bytesToInt32 (view bytes fun _ => 0) 1).toUInt32 := by
  obtain ⟨r, hread, hr⟩ := Option.map_eq_some_iff.mp hr
  have hpipe := read_append hread
  refine ⟨r.bytes.getD [], ?_⟩
  split at hr
  · obtain ⟨rfl, rfl⟩ := Prod.mk.inj hr
    refine ⟨hpipe, ?_⟩
    rintro _ _ ⟨⟩
  · next header hbytes =>
    rw [hbytes, Option.getD_some] at hpipe ⊢
    split_ifs at hr with hl
    · obtain ⟨rfl, rfl⟩ := Prod.mk.inj hr
      refine ⟨hpipe, ?_⟩
      rintro _ _ ⟨⟩
    · obtain ⟨rfl, rfl⟩ := Prod.mk.inj hr
      refine ⟨hpipe, ?_⟩
      rintro _ _ ⟨⟩
      exact ⟨not_not.mp hl, rfl⟩

theorem suffix_readHeader {header : Option (UInt8 × UInt32)} {left : List UInt8}
    (hr : readHeader o pipe = some (header, left)) : left <:+ pipe := by
  obtain ⟨bytes, hpipe, -⟩ := readHeader_append hr
  exact ⟨bytes, hpipe.symm⟩

/-- The data length that the first five bytes announce. -/
def announced (pipe : List UInt8) : UInt32 :=
  (bytesToInt32 (view (pipe.take 5) (fun _ => 0)) 1).toUInt32

theorem readHeader_some {first : UInt8} {dataLength : UInt32} {left : List UInt8}
    (hr : readHeader o pipe = some (some (first, dataLength), left)) :
    5 ≤ pipe.length ∧ dataLength = announced pipe ∧ left = pipe.drop 5 := by
  obtain ⟨bytes, hpipe, hheader⟩ := readHeader_append hr
  obtain ⟨hl, hd⟩ := hheader first dataLength rfl
  refine ⟨?_, ?_, ?_⟩
  · rw [hpipe, List.length_append]
    omega
  · rw [hd, announced, hpipe, List.take_left' hl]
  · rw [hpipe, List.drop_left' hl]

/-- A read of the loop takes from the pipe what it adds to the length received. -/
theorem receiveStep_append {dataLength : Nat} {s t : LoopState}
    (hs : receiveStep dataLength o s = some t) :
    ∃ bytes, s.pipe = bytes ++ t.pipe ∧ t.receivedLength = s.receivedLength + bytes.length := by
  obtain ⟨r, hread, hr⟩ := Option.map_eq_some_iff.mp hs
  have hpipe := read_append hread
  refine ⟨r.bytes.getD [], ?_⟩
  split at hr
  · next hb =>
    subst hr
    exact ⟨hpipe, by rw [hb]; rfl⟩
  · next hb =>
    subst hr
    exact ⟨hpipe, by rw [hb]; rfl⟩
  · next bytes hb =>
    subst hr
    exact ⟨hpipe, by rw [hb]; rfl⟩

/-- So does the loop, and it ends well only with all the data. -/
theorem receiveLoop_append {dataLength : Nat} {outcomes : Stream' ReadOutcome} {s t : LoopState}
    {complete : Bool} (hr : receiveLoop dataLength outcomes s = some (complete, t)) :
    (∃ bytes, s.pipe = bytes ++ t.pipe ∧ t.receivedLength = s.receivedLength + bytes.length) ∧
      (complete = true → dataLength ≤ t.receivedLength) := by
  apply receiveLoop_keeps (P := fun t =>
    ∃ bytes, s.pipe = bytes ++ t.pipe ∧ t.receivedLength = s.receivedLength + bytes.length) ?_
    ⟨[], rfl, rfl⟩ hr
  rintro o u v ⟨first, hp, hf⟩ huv
  obtain ⟨bytes, hq, hb⟩ := receiveStep_append huv
  refine ⟨first ++ bytes, ?_, ?_⟩
  · rw [hp, hq, List.append_assoc]
  · rw [hb, hf, List.length_append, Nat.add_assoc]

/-- What is left when the reception of data ends. -/
def leftBehind : DataResult → List UInt8
  | .received _ pipe => pipe
  | .aborted pipe => pipe

theorem suffix_receiveData {dataLength : UInt32} {outcomes : Stream' ReadOutcome} {r : DataResult}
    (hr : receiveData dataLength outcomes pipe = some r) : leftBehind r <:+ pipe := by
  unfold receiveData at hr
  split_ifs at hr
  · obtain ⟨⟨complete, t⟩, hloop, rfl⟩ := Option.map_eq_some_iff.mp hr
    obtain ⟨⟨bytes, hp, -⟩, -⟩ := receiveLoop_append hloop
    refine ⟨bytes, ?_⟩
    cases complete with
    | true => exact hp.symm
    | false => exact hp.symm
  · obtain rfl := Option.some.inj hr
    exact List.suffix_rfl

theorem length_of_received {dataLength : UInt32} {outcomes : Stream' ReadOutcome}
    {data : Option (List UInt8)} {left : List UInt8}
    (hr : receiveData dataLength outcomes pipe = some (.received data left)) :
    dataLength.toNat ≤ 1 ∨ dataLength.toNat ≤ pipe.length := by
  unfold receiveData at hr
  split_ifs at hr with hl
  · right
    obtain ⟨⟨complete, t⟩, hloop, hr⟩ := Option.map_eq_some_iff.mp hr
    obtain ⟨⟨bytes, hp, hlen⟩, hc⟩ := receiveLoop_append hloop
    cases complete with
    | true =>
      have hle := hc rfl
      have hpipe : pipe.length = bytes.length + t.pipe.length := by
        rw [← List.length_append, ← hp]
      simp only at hlen
      omega
    | false => cases hr
  · exact Or.inl (Nat.not_lt.mp hl)

/-- Data that are all in the pipe can be received. -/
theorem exists_received {dataLength : UInt32}
    (hd : dataLength.toNat ≤ 1 ∨ dataLength.toNat ≤ pipe.length) :
    ∃ data left, receiveData dataLength ((Stream'.const 0).map .data) pipe =
      some (.received data left) := by
  by_cases hl : 1 < dataLength.toNat
  · have hle : dataLength.toNat ≤ pipe.length := hd.resolve_left (Nat.not_le.mpr hl)
    have hlen : (pipe.take dataLength.toNat).length = dataLength.toNat :=
      List.length_take_of_le hle
    let p : Payload := ⟨pipe.take dataLength.toNat, hlen.symm ▸ dataLength.toNat_lt⟩
    have hp : p.length = dataLength := by rw [← UInt32.toNat_inj, Payload.toNat_length, hlen]
    have hne : p.bytes.length ≠ 1 := hlen.symm ▸ Nat.ne_of_gt hl
    have hr := receiveData_payload (Stream'.const 0) p (pipe.drop dataLength.toNat) hne
    rw [hp, List.take_append_drop] at hr
    exact ⟨_, _, hr⟩
  · exact ⟨none, pipe, by rw [receiveData, if_neg hl]⟩

/-- The pipe starts with a header, and holds the data that it announces, if data of that
length are looked for at all. -/
def Parses (pipe : List UInt8) : Prop :=
  5 ≤ pipe.length ∧
    ((announced pipe).toNat ≤ 1 ∨ 5 + (announced pipe).toNat ≤ pipe.length)

instance (pipe : List UInt8) : Decidable (Parses pipe) := inferInstanceAs (Decidable (_ ∧ _))

variable {c : PipeCommunication} {outcomes : Stream' ReadOutcome} {r : Received}

/-- A call takes from the front of the pipe, and succeeds only on what parses. -/
theorem receiveRequest_suffix (hr : c.receiveRequest outcomes pipe = some r) :
    r.pipe <:+ pipe ∧ (r.result = true → Parses pipe) := by
  unfold PipeCommunication.receiveRequest at hr
  split_ifs at hr with hs
  · split at hr
    · cases hr
    · next left hh =>
      obtain rfl := Option.some.inj hr
      exact ⟨suffix_readHeader hh, fun h => absurd h Bool.false_ne_true⟩
    · next first dataLength left hh =>
      obtain ⟨hlen, rfl, hleft⟩ := readHeader_some hh
      have hsuffix := suffix_readHeader hh
      simp only at hr
      split at hr
      · cases hr
      · next data rest hd =>
        obtain rfl := Option.some.inj hr
        refine ⟨(suffix_receiveData hd).trans hsuffix, fun _ => ⟨hlen, ?_⟩⟩
        obtain h1 | hle := length_of_received hd
        · exact Or.inl h1
        · rw [hleft, List.length_drop] at hle
          exact Or.inr (by omega)
      · next rest hd =>
        obtain rfl := Option.some.inj hr
        exact ⟨(suffix_receiveData hd).trans hsuffix, fun h => absurd h Bool.false_ne_true⟩
  · obtain rfl := Option.some.inj hr
    exact ⟨List.suffix_rfl, fun h => absurd h Bool.false_ne_true⟩

end VpTesting.StreamPositions
