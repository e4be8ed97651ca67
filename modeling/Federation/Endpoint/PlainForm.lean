import Federation.Text.Hidden

/-!
# Characters that stand for ASCII text in host names

A host name is compared in a mapped form: capital letters become small, letters of another style
(full width, mathematical, in a circle) become the plain letter, and some characters vanish.  Only
the characters that end up as ASCII text matter here, since a host name with any other character is
written with an `xn--` label, and no endpoint has one.

The tables are those of the mapping of Unicode 17.0.
-/

namespace Federation.Endpoint

/-- first code point, length and text of each run; in a run of several, the text goes up with the
code point -/
def plainRuns : List (Nat × Nat × String) := [
    (0xA0, 1, " "), (0xAA, 1, "a"), (0xB2, 2, "2"), (0xB9, 1, "1"), (0xBA, 1, "o"),
    (0x132, 1, "ij"), (0x133, 1, "ij"), (0x17F, 1, "s"), (0x1C7, 1, "lj"), (0x1C8, 1, "lj"),
    (0x1C9, 1, "lj"), (0x1CA, 1, "nj"), (0x1CB, 1, "nj"), (0x1CC, 1, "nj"), (0x1F1, 1, "dz"),
    (0x1F2, 1, "dz"), (0x1F3, 1, "dz"), (0x2B0, 1, "h"), (0x2B2, 1, "j"), (0x2B3, 1, "r"),
    (0x2B7, 1, "w"), (0x2B8, 1, "y"), (0x2E1, 1, "l"), (0x2E2, 1, "s"), (0x2E3, 1, "x"),
    (0x37E, 1, ";"), (0x1D2C, 1, "a"), (0x1D2E, 1, "b"), (0x1D30, 2, "d"), (0x1D33, 8, "g"),
    (0x1D3C, 1, "o"), (0x1D3E, 1, "p"), (0x1D3F, 1, "r"), (0x1D40, 2, "t"), (0x1D42, 1, "w"),
    (0x1D43, 1, "a"), (0x1D47, 1, "b"), (0x1D48, 2, "d"), (0x1D4D, 1, "g"), (0x1D4F, 1, "k"),
    (0x1D50, 1, "m"), (0x1D52, 1, "o"), (0x1D56, 1, "p"), (0x1D57, 2, "t"), (0x1D5B, 1, "v"),
    (0x1D62, 1, "i"), (0x1D63, 1, "r"), (0x1D64, 2, "u"), (0x1D9C, 1, "c"), (0x1DA0, 1, "f"),
    (0x1DBB, 1, "z"), (0x1FEF, 1, "`"), (0x2000, 1, " "), (0x2001, 1, " "), (0x2002, 1, " "),
    (0x2003, 1, " "), (0x2004, 1, " "), (0x2005, 1, " "), (0x2006, 1, " "), (0x2007, 1, " "),
    (0x2008, 1, " "), (0x2009, 1, " "), (0x200A, 1, " "), (0x202F, 1, " "), (0x203C, 1, "!!"),
    (0x2047, 1, "??"), (0x2048, 1, "?!"), (0x2049, 1, "!?"), (0x205F, 1, " "), (0x2070, 1, "0"),
    (0x2071, 1, "i"), (0x2074, 6, "4"), (0x207A, 1, "+"), (0x207C, 1, "="), (0x207D, 2, "("),
    (0x207F, 1, "n"), (0x2080, 10, "0"), (0x208A, 1, "+"), (0x208C, 1, "="), (0x208D, 2, "("),
    (0x2090, 1, "a"), (0x2091, 1, "e"), (0x2092, 1, "o"), (0x2093, 1, "x"), (0x2095, 1, "h"),
    (0x2096, 4, "k"), (0x209A, 1, "p"), (0x209B, 2, "s"), (0x20A8, 1, "rs"), (0x2100, 1, "a/c"),
    (0x2101, 1, "a/s"), (0x2102, 1, "c"), (0x2105, 1, "c/o"), (0x2106, 1, "c/u"), (0x210A, 2, "g"),
    (0x210C, 1, "h"), (0x210D, 1, "h"), (0x210E, 1, "h"), (0x2110, 1, "i"), (0x2111, 1, "i"),
    (0x2112, 1, "l"), (0x2113, 1, "l"), (0x2115, 1, "n"), (0x2116, 1, "no"), (0x2119, 3, "p"),
    (0x211C, 1, "r"), (0x211D, 1, "r"), (0x2120, 1, "sm"), (0x2121, 1, "tel"), (0x2122, 1, "tm"),
    (0x2124, 1, "z"), (0x2128, 1, "z"), (0x212A, 1, "k"), (0x212C, 2, "b"), (0x212F, 1, "e"),
    (0x2130, 2, "e"), (0x2133, 1, "m"), (0x2134, 1, "o"), (0x2139, 1, "i"), (0x213B, 1, "fax"),
    (0x2145, 1, "d"), (0x2146, 2, "d"), (0x2148, 2, "i"), (0x2160, 1, "i"), (0x2161, 1, "ii"),
    (0x2162, 1, "iii"), (0x2163, 1, "iv"), (0x2164, 1, "v"), (0x2165, 1, "vi"), (0x2166, 1, "vii"),
    (0x2167, 1, "viii"), (0x2168, 1, "ix"), (0x2169, 1, "x"), (0x216A, 1, "xi"), (0x216B, 1, "xii"),
    (0x216C, 1, "l"), (0x216D, 2, "c"), (0x216F, 1, "m"), (0x2170, 1, "i"), (0x2171, 1, "ii"),
    (0x2172, 1, "iii"), (0x2173, 1, "iv"), (0x2174, 1, "v"), (0x2175, 1, "vi"), (0x2176, 1, "vii"),
    (0x2177, 1, "viii"), (0x2178, 1, "ix"), (0x2179, 1, "x"), (0x217A, 1, "xi"), (0x217B, 1, "xii"),
    (0x217C, 1, "l"), (0x217D, 2, "c"), (0x217F, 1, "m"), (0x2460, 9, "1"), (0x2469, 1, "10"),
    (0x246A, 1, "11"), (0x246B, 1, "12"), (0x246C, 1, "13"), (0x246D, 1, "14"), (0x246E, 1, "15"),
    (0x246F, 1, "16"), (0x2470, 1, "17"), (0x2471, 1, "18"), (0x2472, 1, "19"), (0x2473, 1, "20"),
    (0x2474, 1, "(1)"), (0x2475, 1, "(2)"), (0x2476, 1, "(3)"), (0x2477, 1, "(4)"),
    (0x2478, 1, "(5)"), (0x2479, 1, "(6)"), (0x247A, 1, "(7)"), (0x247B, 1, "(8)"),
    (0x247C, 1, "(9)"), (0x247D, 1, "(10)"), (0x247E, 1, "(11)"), (0x247F, 1, "(12)"),
    (0x2480, 1, "(13)"), (0x2481, 1, "(14)"), (0x2482, 1, "(15)"), (0x2483, 1, "(16)"),
    (0x2484, 1, "(17)"), (0x2485, 1, "(18)"), (0x2486, 1, "(19)"), (0x2487, 1, "(20)"),
    (0x249C, 1, "(a)"), (0x249D, 1, "(b)"), (0x249E, 1, "(c)"), (0x249F, 1, "(d)"),
    (0x24A0, 1, "(e)"), (0x24A1, 1, "(f)"), (0x24A2, 1, "(g)"), (0x24A3, 1, "(h)"),
    (0x24A4, 1, "(i)"), (0x24A5, 1, "(j)"), (0x24A6, 1, "(k)"), (0x24A7, 1, "(l)"),
    (0x24A8, 1, "(m)"), (0x24A9, 1, "(n)"), (0x24AA, 1, "(o)"), (0x24AB, 1, "(p)"),
    (0x24AC, 1, "(q)"), (0x24AD, 1, "(r)"), (0x24AE, 1, "(s)"), (0x24AF, 1, "(t)"),
    (0x24B0, 1, "(u)"), (0x24B1, 1, "(v)"), (0x24B2, 1, "(w)"), (0x24B3, 1, "(x)"),
    (0x24B4, 1, "(y)"), (0x24B5, 1, "(z)"), (0x24B6, 26, "a"), (0x24D0, 26, "a"), (0x24EA, 1, "0"),
    (0x2A74, 1, "::="), (0x2A75, 1, "=="), (0x2A76, 1, "==="), (0x2C7C, 1, "j"), (0x2C7D, 1, "v"),
    (0x3000, 1, " "), (0x3002, 1, "."), (0x3250, 1, "pte"), (0x3251, 1, "21"), (0x3252, 1, "22"),
    (0x3253, 1, "23"), (0x3254, 1, "24"), (0x3255, 1, "25"), (0x3256, 1, "26"), (0x3257, 1, "27"),
    (0x3258, 1, "28"), (0x3259, 1, "29"), (0x325A, 1, "30"), (0x325B, 1, "31"), (0x325C, 1, "32"),
    (0x325D, 1, "33"), (0x325E, 1, "34"), (0x325F, 1, "35"), (0x32B1, 1, "36"), (0x32B2, 1, "37"),
    (0x32B3, 1, "38"), (0x32B4, 1, "39"), (0x32B5, 1, "40"), (0x32B6, 1, "41"), (0x32B7, 1, "42"),
    (0x32B8, 1, "43"), (0x32B9, 1, "44"), (0x32BA, 1, "45"), (0x32BB, 1, "46"), (0x32BC, 1, "47"),
    (0x32BD, 1, "48"), (0x32BE, 1, "49"), (0x32BF, 1, "50"), (0x32CC, 1, "hg"), (0x32CD, 1, "erg"),
    (0x32CE, 1, "ev"), (0x32CF, 1, "ltd"), (0x3371, 1, "hpa"), (0x3372, 1, "da"), (0x3373, 1, "au"),
    (0x3374, 1, "bar"), (0x3375, 1, "ov"), (0x3376, 1, "pc"), (0x3377, 1, "dm"), (0x3378, 1, "dm2"),
    (0x3379, 1, "dm3"), (0x337A, 1, "iu"), (0x3380, 1, "pa"), (0x3381, 1, "na"), (0x3383, 1, "ma"),
    (0x3384, 1, "ka"), (0x3385, 1, "kb"), (0x3386, 1, "mb"), (0x3387, 1, "gb"), (0x3388, 1, "cal"),
    (0x3389, 1, "kcal"), (0x338A, 1, "pf"), (0x338B, 1, "nf"), (0x338E, 1, "mg"), (0x338F, 1, "kg"),
    (0x3390, 1, "hz"), (0x3391, 1, "khz"), (0x3392, 1, "mhz"), (0x3393, 1, "ghz"),
    (0x3394, 1, "thz"), (0x3396, 1, "ml"), (0x3397, 1, "dl"), (0x3398, 1, "kl"), (0x3399, 1, "fm"),
    (0x339A, 1, "nm"), (0x339C, 1, "mm"), (0x339D, 1, "cm"), (0x339E, 1, "km"), (0x339F, 1, "mm2"),
    (0x33A0, 1, "cm2"), (0x33A1, 1, "m2"), (0x33A2, 1, "km2"), (0x33A3, 1, "mm3"),
    (0x33A4, 1, "cm3"), (0x33A5, 1, "m3"), (0x33A6, 1, "km3"), (0x33A9, 1, "pa"),
    (0x33AA, 1, "kpa"), (0x33AB, 1, "mpa"), (0x33AC, 1, "gpa"), (0x33AD, 1, "rad"),
    (0x33B0, 1, "ps"), (0x33B1, 1, "ns"), (0x33B3, 1, "ms"), (0x33B4, 1, "pv"), (0x33B5, 1, "nv"),
    (0x33B7, 1, "mv"), (0x33B8, 1, "kv"), (0x33B9, 1, "mv"), (0x33BA, 1, "pw"), (0x33BB, 1, "nw"),
    (0x33BD, 1, "mw"), (0x33BE, 1, "kw"), (0x33BF, 1, "mw"), (0x33C3, 1, "bq"), (0x33C4, 1, "cc"),
    (0x33C5, 1, "cd"), (0x33C8, 1, "db"), (0x33C9, 1, "gy"), (0x33CA, 1, "ha"), (0x33CB, 1, "hp"),
    (0x33CC, 1, "in"), (0x33CD, 1, "kk"), (0x33CE, 1, "km"), (0x33CF, 1, "kt"), (0x33D0, 1, "lm"),
    (0x33D1, 1, "ln"), (0x33D2, 1, "log"), (0x33D3, 1, "lx"), (0x33D4, 1, "mb"), (0x33D5, 1, "mil"),
    (0x33D6, 1, "mol"), (0x33D7, 1, "ph"), (0x33D9, 1, "ppm"), (0x33DA, 1, "pr"), (0x33DB, 1, "sr"),
    (0x33DC, 1, "sv"), (0x33DD, 1, "wb"), (0x33FF, 1, "gal"), (0xA7F1, 1, "s"), (0xA7F2, 1, "c"),
    (0xA7F3, 1, "f"), (0xA7F4, 1, "q"), (0xFB00, 1, "ff"), (0xFB01, 1, "fi"), (0xFB02, 1, "fl"),
    (0xFB03, 1, "ffi"), (0xFB04, 1, "ffl"), (0xFB05, 1, "st"), (0xFB06, 1, "st"), (0xFB29, 1, "+"),
    (0xFE10, 1, ","), (0xFE13, 2, ":"), (0xFE15, 1, "!"), (0xFE16, 1, "?"), (0xFE33, 1, "_"),
    (0xFE34, 1, "_"), (0xFE35, 2, "("), (0xFE37, 1, "\x7b"), (0xFE38, 1, "\x7d"), (0xFE47, 1, "["),
    (0xFE48, 1, "]"), (0xFE4D, 1, "_"), (0xFE4E, 1, "_"), (0xFE4F, 1, "_"), (0xFE50, 1, ","),
    (0xFE54, 1, ";"), (0xFE55, 1, ":"), (0xFE56, 1, "?"), (0xFE57, 1, "!"), (0xFE59, 2, "("),
    (0xFE5B, 1, "\x7b"), (0xFE5C, 1, "\x7d"), (0xFE5F, 1, "#"), (0xFE60, 1, "&"), (0xFE61, 2, "*"),
    (0xFE63, 1, "-"), (0xFE64, 1, "<"), (0xFE65, 1, ">"), (0xFE66, 1, "="), (0xFE68, 1, "\\"),
    (0xFE69, 2, "$"), (0xFE6B, 1, "@"), (0xFF01, 32, "!"), (0xFF21, 26, "a"), (0xFF3B, 36, "["),
    (0xFF61, 1, "."), (0x107A5, 1, "q"), (0x1CCD6, 26, "a"), (0x1CCF0, 10, "0"), (0x1D400, 26, "a"),
    (0x1D41A, 26, "a"), (0x1D434, 26, "a"), (0x1D44E, 7, "a"), (0x1D456, 18, "i"),
    (0x1D468, 26, "a"), (0x1D482, 26, "a"), (0x1D49C, 1, "a"), (0x1D49E, 2, "c"), (0x1D4A2, 1, "g"),
    (0x1D4A5, 2, "j"), (0x1D4A9, 4, "n"), (0x1D4AE, 8, "s"), (0x1D4B6, 4, "a"), (0x1D4BB, 1, "f"),
    (0x1D4BD, 7, "h"), (0x1D4C5, 11, "p"), (0x1D4D0, 26, "a"), (0x1D4EA, 26, "a"),
    (0x1D504, 2, "a"), (0x1D507, 4, "d"), (0x1D50D, 8, "j"), (0x1D516, 7, "s"), (0x1D51E, 26, "a"),
    (0x1D538, 2, "a"), (0x1D53B, 4, "d"), (0x1D540, 5, "i"), (0x1D546, 1, "o"), (0x1D54A, 7, "s"),
    (0x1D552, 26, "a"), (0x1D56C, 26, "a"), (0x1D586, 26, "a"), (0x1D5A0, 26, "a"),
    (0x1D5BA, 26, "a"), (0x1D5D4, 26, "a"), (0x1D5EE, 26, "a"), (0x1D608, 26, "a"),
    (0x1D622, 26, "a"), (0x1D63C, 26, "a"), (0x1D656, 26, "a"), (0x1D670, 26, "a"),
    (0x1D68A, 26, "a"), (0x1D7CE, 10, "0"), (0x1D7D8, 10, "0"), (0x1D7E2, 10, "0"),
    (0x1D7EC, 10, "0"), (0x1D7F6, 10, "0"), (0x1F101, 1, "0,"), (0x1F102, 1, "1,"),
    (0x1F103, 1, "2,"), (0x1F104, 1, "3,"), (0x1F105, 1, "4,"), (0x1F106, 1, "5,"),
    (0x1F107, 1, "6,"), (0x1F108, 1, "7,"), (0x1F109, 1, "8,"), (0x1F10A, 1, "9,"),
    (0x1F110, 1, "(a)"), (0x1F111, 1, "(b)"), (0x1F112, 1, "(c)"), (0x1F113, 1, "(d)"),
    (0x1F114, 1, "(e)"), (0x1F115, 1, "(f)"), (0x1F116, 1, "(g)"), (0x1F117, 1, "(h)"),
    (0x1F118, 1, "(i)"), (0x1F119, 1, "(j)"), (0x1F11A, 1, "(k)"), (0x1F11B, 1, "(l)"),
    (0x1F11C, 1, "(m)"), (0x1F11D, 1, "(n)"), (0x1F11E, 1, "(o)"), (0x1F11F, 1, "(p)"),
    (0x1F120, 1, "(q)"), (0x1F121, 1, "(r)"), (0x1F122, 1, "(s)"), (0x1F123, 1, "(t)"),
    (0x1F124, 1, "(u)"), (0x1F125, 1, "(v)"), (0x1F126, 1, "(w)"), (0x1F127, 1, "(x)"),
    (0x1F128, 1, "(y)"), (0x1F129, 1, "(z)"), (0x1F12B, 1, "c"), (0x1F12C, 1, "r"),
    (0x1F12D, 1, "cd"), (0x1F12E, 1, "wz"), (0x1F130, 26, "a"), (0x1F14A, 1, "hv"),
    (0x1F14B, 1, "mv"), (0x1F14C, 1, "sd"), (0x1F14D, 1, "ss"), (0x1F14E, 1, "ppv"),
    (0x1F14F, 1, "wc"), (0x1F16A, 1, "mc"), (0x1F16B, 1, "md"), (0x1F16C, 1, "mr"),
    (0x1F190, 1, "dj"), (0x1FBF0, 10, "0")]

/-- first and last code point of the characters that vanish -/
def ignoredRanges : List (Nat × Nat) := [
  (0xAD, 0xAD), (0x34F, 0x34F), (0x115F, 0x1160), (0x17B4, 0x17B5), (0x180B, 0x180F), (0x200B,
  0x200B), (0x2060, 0x2064), (0x206A, 0x206F), (0x3164, 0x3164), (0xFE00, 0xFE0F), (0xFEFF,
  0xFEFF), (0xFFA0, 0xFFA0), (0x1BCA0, 0x1BCA3), (0x1D173, 0x1D17A), (0xE0100, 0xE01EF)]

def inRuns (n : Nat) : List (Nat × Nat × String) → Option (List Char)
  | [] => none
  | (first, length, text) :: rest =>
    if n < first then none
    else if n < first + length then
      some (if length = 1 then text.toList
        else text.toList.map fun c => Char.ofNat (c.toNat + (n - first)))
    else inRuns n rest

/-- the ASCII text that a character stands for in a host name -/
def plainForm? (c : Char) : Option (List Char) :=
  if c.toNat < 0x80 then some [c.toLower]
  else if Text.inRanges c.toNat ignoredRanges then some []
  else (inRuns c.toNat plainRuns).map (·.map Char.toLower)

def plainText? (cs : List Char) : Option (List Char) := (cs.mapM plainForm?).map List.flatten

end Federation.Endpoint
