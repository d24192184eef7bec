import CyrexMC.Session.FrameBounds
set_option autoImplicit false

/-! How often the loop of `onRaw` runs. Its condition is an unsigned difference, which says nothing
once the cursor is behind the end. What bounds the loop are the two varints of a frame: they take a
byte each, and a varint that is not there throws. -/

namespace CyrexMC
open BinaryReader Stateful

variable (tp : ThirdParty)

/-- The iterations of the loop that begin, counted from one. -/
inductive Begins (data : Bytes) (w : World) : Nat → BinaryReader → World → Prop where
  | first : Begins data w 1 (ofBytes data) w
  | next {k : Nat} {batch next : BinaryReader} {w' w'' : World} {packet : Packet} (h : Begins data w k batch w')
      (hdecode : NetworkSession.decodeFrame tp data batch = .ok (some (packet,next)))
      (hhandle : NetworkSession.handle tp packet.body w' = .ok true w'') (hmore : next.remaining > 0) :
      Begins data w (k+1) next w''

section

variable {tp} {data : Bytes} {w w' : World} {batch : BinaryReader} {k : Nat}

theorem Begins.reaches (h : Begins tp data w k batch w') : Reaches tp data w batch w' := by
  induction h with
  | first => exact .start
  | next h hdecode hhandle hmore ih => exact .next ih hdecode hhandle hmore

theorem Round.used {o : Nat} {packetLength packetHeader : UInt32} {headerSize : Nat}
    (h : Round data batch o packetLength packetHeader headerSize) : batch.offset < o ∧ o < data.length := by
  obtain ⟨-,hlength,-⟩ := readVarUInt_ok h.length
  obtain ⟨-,hheader,-⟩ := readVarUInt_ok h.header
  have hinside := h.header_inside
  simp only [packetBuffer] at hheader
  simp only at hlength
  exact ⟨hlength,by omega⟩

/-- The cursor has moved over a byte for each iteration that is done, and is not so far behind the
end that it could wrap. -/
theorem Begins.cursor (h : Begins tp data w k batch w') :
    k ≤ batch.offset+1 ∧ batch.offset < data.length+2^32 := by
  induction h with
  | first =>
    simp only [ofBytes]
    omega
  | next h hdecode hhandle hmore ih =>
    obtain ⟨hcount,-⟩ := ih
    obtain ⟨o,packetLength,packetHeader,headerSize,hround⟩ := exists_round h.reaches.cursor_eq hdecode
    obtain ⟨hmoved,hinside⟩ := hround.used
    have hL := packetLength.toNat_lt
    rw [hround.next hdecode]
    simp only
    omega

theorem Begins.count_le (h : Begins tp data w k batch w') : k ≤ max data.length 1 := by
  cases h with
  | first => exact Nat.le_max_right _ _
  | next h hdecode hhandle hmore =>
    obtain ⟨hcount,-⟩ := h.cursor
    obtain ⟨o,packetLength,packetHeader,headerSize,hround⟩ := exists_round h.reaches.cursor_eq hdecode
    obtain ⟨hmoved,hinside⟩ := hround.used
    omega

theorem Begins.onRawLoop_eq (fuel fuel' : Nat) (h : Begins tp data w k batch w')
    (hfuel : max data.length 1 < fuel+k) (hfuel' : max data.length 1 < fuel'+k) :
    NetworkSession.onRawLoop tp data fuel batch w' = NetworkSession.onRawLoop tp data fuel' batch w' := by
  have hcount := h.count_le
  induction fuel generalizing fuel' k batch w' with
  | zero => omega
  | succ fuel ih =>
    cases fuel' with
    | zero => omega
    | succ fuel' =>
      simp only [NetworkSession.onRawLoop]
      cases hdecode : NetworkSession.decodeFrame tp data batch with
      | error f => rfl
      | ok found =>
        cases found with
        | none => rfl
        | some found =>
          obtain ⟨packet,next⟩ := found
          cases hhandle : NetworkSession.handle tp packet.body w' with
          | error f w'' =>
            simp only
            rw [bind_error hhandle,bind_error hhandle]
          | ok handled w'' =>
            simp only
            rw [bind_ok hhandle,bind_ok hhandle]
            cases handled with
            | false => simp only [Bool.false_eq_true,if_false]
            | true =>
              by_cases hmore : next.remaining > 0
              · have hnext : Begins tp data w (k+1) next w'' := .next h hdecode hhandle hmore
                simp only [hmore,if_true]
                exact ih fuel' hnext (by omega) (by omega) hnext.count_le
              · simp only [hmore,if_false]

end

/-- A batch of `n` bytes takes at most `n` iterations, and an empty one the iteration that throws. -/
theorem onRaw_iterations (data : Bytes) (w : World) :
    (∀ k batch w', Begins tp data w k batch w' → k ≤ max data.length 1 ∧ batch.offset < data.length+2^32) ∧
    ∀ fuel, max data.length 1 ≤ fuel →
      NetworkSession.onRawLoop tp data fuel (ofBytes data) w = NetworkSession.onRaw tp data w := by
  constructor
  · intro k batch w' h
    exact ⟨h.count_le,h.cursor.2⟩
  · intro fuel hfuel
    have hfirst : Begins tp data w 1 (ofBytes data) w := .first
    exact hfirst.onRawLoop_eq fuel (data.length+1) (by omega) (by omega)

/-- The body of a do-while loop runs before the condition is looked at. -/
theorem empty_batch_begins : ¬ ∀ k batch w', Begins .failing [] World.bare k batch w' → k ≤ ([] : Bytes).length := by
  intro h
  have hfirst := h _ _ _ .first
  exact absurd hfirst (by decide)

end CyrexMC
