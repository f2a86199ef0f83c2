/-! Powers of the two bases of number formats. -/

namespace TableApi.Number

def twoTo (exponent : Nat) : Nat := Nat.pow 2 exponent

def tenTo (exponent : Nat) : Nat := Nat.pow 10 exponent

end TableApi.Number
