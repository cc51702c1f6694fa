/-! Spans of time in whole milliseconds. -/
namespace Kfx

structure Duration where
  milliseconds : Nat
  deriving DecidableEq

/-- Seconds with the places they need from one second on, milliseconds below. -/
def Duration.text (d : Duration) : String :=
  let seconds := d.milliseconds / 1000
  let rest := d.milliseconds % 1000
  if seconds = 0 then if rest = 0 then "0ns" else s!"{rest}ms"
  else
    let digits := Nat.toDigits 10 rest
    let places := List.replicate (3 - digits.length) '0' ++ digits
    let places := (places.reverse.dropWhile (· = '0')).reverse
    let fraction := if places.isEmpty then "" else "." ++ String.ofList places
    s!"{seconds}{fraction}s"

end Kfx
