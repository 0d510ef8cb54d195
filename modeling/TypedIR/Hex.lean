namespace TypedIR.Hex

def padded (count n : Nat) : String :=
  let ds := Nat.toDigits 16 n
  String.ofList (List.replicate (count - ds.length) '0' ++ ds)

end TypedIR.Hex
