import Cjson.Charset.UpperHalf
import Cjson.Charset.Utf16
import Cjson.Charset.Utf8

namespace Cjson

/-- Every byte sequence can be decoded: what is malformed becomes U+FFFD. -/
inductive Charset where
  | utf8
  | utf16 (bigEndian : Bool)
  /-- Each byte is the code point of the same value. -/
  | latin1
  /-- ASCII, with the characters of the bytes from 0x80 on, in this order; U+FFFD is there for
  bytes that stand for nothing. -/
  | singleByte (upperHalf : String)
  /-- ASCII, with 128 private characters. -/
  | userDefined
  /-- Encodings that are not safe to decode: any text is one replacement character. -/
  | replacement

namespace Charset

/-- The labels of the encodings; the encodings of East Asia with their large tables are not
among them. Latin-1 labels mean Latin-1 itself, and not its extension windows-1252. -/
def labels : List (List String × Charset) :=
  [(["iso-8859-1", "iso8859-1", "iso_8859-1", "iso_8859_1", "iso8859_1", "8859_1", "latin1",
      "l1", "cp819", "ibm819", "csisolatin1"], latin1),
    (["unicode-1-1-utf-8", "unicode11utf8", "unicode20utf8", "utf-8", "utf8",
      "x-unicode20utf8"], utf8),
    (["866", "cp866", "csibm866", "ibm866"], singleByte ibm866),
    (["csisolatin2", "iso-8859-2", "iso-ir-101", "iso8859-2", "iso88592", "iso_8859-2",
      "iso_8859-2:1987", "l2", "latin2"], singleByte iso8859Part2),
    (["csisolatin3", "iso-8859-3", "iso-ir-109", "iso8859-3", "iso88593", "iso_8859-3",
      "iso_8859-3:1988", "l3", "latin3"], singleByte iso8859Part3),
    (["csisolatin4", "iso-8859-4", "iso-ir-110", "iso8859-4", "iso88594", "iso_8859-4",
      "iso_8859-4:1988", "l4", "latin4"], singleByte iso8859Part4),
    (["csisolatincyrillic", "cyrillic", "iso-8859-5", "iso-ir-144", "iso8859-5", "iso88595",
      "iso_8859-5", "iso_8859-5:1988"], singleByte iso8859Part5),
    (["arabic", "asmo-708", "csiso88596e", "csiso88596i", "csisolatinarabic", "ecma-114",
      "iso-8859-6", "iso-8859-6-e", "iso-8859-6-i", "iso-ir-127", "iso8859-6", "iso88596",
      "iso_8859-6", "iso_8859-6:1987"], singleByte iso8859Part6),
    (["csisolatingreek", "ecma-118", "elot_928", "greek", "greek8", "iso-8859-7",
      "iso-ir-126", "iso8859-7", "iso88597", "iso_8859-7", "iso_8859-7:1987",
      "sun_eu_greek"], singleByte iso8859Part7),
    (["csiso88598e", "csisolatinhebrew", "hebrew", "iso-8859-8", "iso-8859-8-e",
      "iso-ir-138", "iso8859-8", "iso88598", "iso_8859-8", "iso_8859-8:1988", "visual",
      "csiso88598i", "iso-8859-8-i", "logical"], singleByte iso8859Part8),
    (["csisolatin6", "iso-8859-10", "iso-ir-157", "iso8859-10", "iso885910", "l6",
      "latin6"], singleByte iso8859Part10),
    (["iso-8859-13", "iso8859-13", "iso885913"], singleByte iso8859Part13),
    (["iso-8859-14", "iso8859-14", "iso885914"], singleByte iso8859Part14),
    (["csisolatin9", "iso-8859-15", "iso8859-15", "iso885915", "iso_8859-15", "l9"],
      singleByte iso8859Part15),
    (["iso-8859-16"], singleByte iso8859Part16),
    (["cskoi8r", "koi", "koi8", "koi8-r", "koi8_r"], singleByte koi8R),
    (["koi8-ru", "koi8-u"], singleByte koi8U),
    (["csmacintosh", "mac", "macintosh", "x-mac-roman"], singleByte macintosh),
    (["dos-874", "iso-8859-11", "iso8859-11", "iso885911", "tis-620", "windows-874"],
      singleByte windows874),
    (["cp1250", "windows-1250", "x-cp1250"], singleByte windows1250),
    (["cp1251", "windows-1251", "x-cp1251"], singleByte windows1251),
    (["ansi_x3.4-1968", "ascii", "cp1252", "iso-ir-100", "iso88591", "iso_8859-1:1987",
      "us-ascii", "windows-1252", "x-cp1252"], singleByte windows1252),
    (["cp1253", "windows-1253", "x-cp1253"], singleByte windows1253),
    (["cp1254", "csisolatin5", "iso-8859-9", "iso-ir-148", "iso8859-9", "iso88599",
      "iso_8859-9", "iso_8859-9:1989", "l5", "latin5", "windows-1254", "x-cp1254"],
      singleByte windows1254),
    (["cp1255", "windows-1255", "x-cp1255"], singleByte windows1255),
    (["cp1256", "windows-1256", "x-cp1256"], singleByte windows1256),
    (["cp1257", "windows-1257", "x-cp1257"], singleByte windows1257),
    (["cp1258", "windows-1258", "x-cp1258"], singleByte windows1258),
    (["x-mac-cyrillic", "x-mac-ukrainian"], singleByte macCyrillic),
    (["csiso2022kr", "hz-gb-2312", "iso-2022-cn", "iso-2022-cn-ext", "iso-2022-kr",
      "replacement"], replacement),
    (["unicodefffe", "utf-16be"], utf16 true),
    (["csunicode", "iso-10646-ucs-2", "ucs-2", "unicode", "unicodefeff", "utf-16",
      "utf-16le"], utf16 false),
    (["x-user-defined"], userDefined)]

/-- The encoding with this label, in whatever case its letters are. -/
def ofLabel? (label : String) : Option Charset :=
  let small := String.ofList (label.toList.map Char.toLower)
  (labels.find? (·.1.contains small)).map (·.2)

def latin1Char (b : UInt8) : Char :=
  .ofNat b.toNat

def decode : Charset → List UInt8 → List Char
  | utf8, bytes => Utf8.decoder.decode bytes
  | utf16 bigEndian, bytes => (Utf16.decoder bigEndian).decode bytes
  | latin1, bytes => bytes.map latin1Char
  | singleByte upperHalf, bytes =>
    let upper := upperHalf.toList
    bytes.map fun b =>
      if b < 0x80 then latin1Char b else upper.getD (b.toNat - 0x80) replacementChar
  | userDefined, bytes =>
    bytes.map fun b => if b < 0x80 then latin1Char b else .ofNat (0xF700 + b.toNat)
  | replacement, bytes => if bytes.isEmpty then [] else [replacementChar]

end Charset
end Cjson
