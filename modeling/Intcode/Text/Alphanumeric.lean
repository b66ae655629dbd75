import Intcode.Text.Range

namespace Intcode.Text

namespace Alphanumeric

def ranges : List Range := [
  (0x30, 0x39), (0x41, 0x5a), (0x61, 0x7a), (0xaa, 0xaa), (0xb2, 0xb3), (0xb5, 0xb5),
  (0xb9, 0xba), (0xc0, 0xd6), (0xd8, 0xf6), (0xf8, 0x24f), (0x370, 0x374), (0x376, 0x377),
  (0x37a, 0x37d), (0x37f, 0x37f), (0x386, 0x386), (0x388, 0x38a), (0x38c, 0x38c), (0x38e, 0x3a1),
  (0x3a3, 0x3e1), (0x3f0, 0x3f5), (0x3f7, 0x481), (0x48a, 0x52f), (0x1c80, 0x1c88),
  (0x1d26, 0x1d2b), (0x1d5e, 0x1d5e), (0x1d60, 0x1d60), (0x1d66, 0x1d6a), (0x1d78, 0x1d78),
  (0x1f00, 0x1f15), (0x1f18, 0x1f1d), (0x1f20, 0x1f45), (0x1f48, 0x1f4d), (0x1f50, 0x1f57),
  (0x1f59, 0x1f59), (0x1f5b, 0x1f5b), (0x1f5d, 0x1f5d), (0x1f5f, 0x1f7d), (0x1f80, 0x1fb4),
  (0x1fb6, 0x1fbc), (0x1fbe, 0x1fbe), (0x1fc2, 0x1fc4), (0x1fc6, 0x1fcc), (0x1fd0, 0x1fd3),
  (0x1fd6, 0x1fdb), (0x1fe0, 0x1fec), (0x1ff2, 0x1ff4), (0x1ff6, 0x1ffc), (0xa640, 0xa66e),
  (0xa67f, 0xa69d), (0xab65, 0xab65)]

end Alphanumeric

def isAlphanumeric (c : Char) : Bool :=
  Range.covers Alphanumeric.ranges c

end Intcode.Text
