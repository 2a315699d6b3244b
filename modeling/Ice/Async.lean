import Ice.Error

/-!
# `ice::send`

The overload of `async.hpp` that reports through its result: it calls `stream.send` with an
error code of its own and turns a short count into an end of file.
-/

namespace Ice

/-- `ice::send(stream, buffer)` for a buffer of `size` bytes, after `stream.send` returned
    `sent` and left `ec`. -/
def send (size sent : ℕ) (ec : ErrorCode) : ErrorCode :=
  if !ec.isSet && decide (sent < size) then errc.eof.make_error_code else ec

/-- No error is reported exactly when the stream reported none and sent everything. -/
theorem isSet_send {size sent : ℕ} {ec : ErrorCode} :
    (send size sent ec).isSet = false ↔ ec.isSet = false ∧ size ≤ sent := by
  unfold send
  cases hec : ec.isSet with
  | true => simp [hec]
  | false =>
    by_cases hlt : sent < size
    · simp [hlt]
    · simp [hec, hlt, Nat.le_of_not_lt hlt]

end Ice
