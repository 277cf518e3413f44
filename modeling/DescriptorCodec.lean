import DescriptorCodec.Bytes.Cursor
import DescriptorCodec.Attribute.RecordSet
import DescriptorCodec.Proofs.Record.Writing
import DescriptorCodec.Proofs.Collection.Grouping
import DescriptorCodec.Proofs.Record.Reads
import DescriptorCodec.Proofs.Descriptor.Normalize
import DescriptorCodec.Proofs.Descriptor.Building
import DescriptorCodec.Proofs.Attribute.Applying
import DescriptorCodec.Proofs.Attribute.Tables
import DescriptorCodec.Proofs.Attribute.RoundTrip
import DescriptorCodec.Proofs.RecordSet.Writing
import DescriptorCodec.Proofs.RecordSet.RoundTrip
import DescriptorCodec.Proofs.Record.Ensures
import DescriptorCodec.Proofs.Attribute.Canonical
import DescriptorCodec.Proofs.RecordSet.Canonical
import DescriptorCodec.Proofs.Record.Stability
import DescriptorCodec.Proofs.RecordSet.Stability
import DescriptorCodec.Proofs.Version.ListOrder
import DescriptorCodec.Proofs.Version.Reading
import DescriptorCodec.Proofs.Version.Laws
import DescriptorCodec.Proofs.Pool.Symbols
import DescriptorCodec.Proofs.Pool.Permanence
import DescriptorCodec.Proofs.Descriptor.Needed
import DescriptorCodec.Proofs.RecordSet.Room
import DescriptorCodec.Proofs.Descriptor.Format
import DescriptorCodec.Proofs.RecordSet.Format
import DescriptorCodec.Proofs.RecordSet.Sessions
import DescriptorCodec.Proofs.Version.Grammar
import DescriptorCodec.Proofs.Version.Sharing
import DescriptorCodec.Proofs.Record.Steps
import DescriptorCodec.Proofs.RecordSet.Failure
import DescriptorCodec.Proofs.Attribute.Footprint
import DescriptorCodec.Proofs.RecordSet.Feeding
import DescriptorCodec.Proofs.Descriptor.Calls
import DescriptorCodec.Proofs.Descriptor.Plain
import DescriptorCodec.Proofs.RecordSet.Reproduction
import DescriptorCodec.Proofs.Version.PaddedOrder
import DescriptorCodec.Proofs.RecordSet.Order
import DescriptorCodec.Proofs.Version.Equality
import DescriptorCodec.Proofs.Record.Extent
import DescriptorCodec.Proofs.Attribute.Extent
import DescriptorCodec.Proofs.Collection.Repeats
import DescriptorCodec.Proofs.Record.Spelling
import DescriptorCodec.Proofs.Attribute.Rows
import DescriptorCodec.Proofs.RecordSet.Coalescing
import DescriptorCodec.Proofs.RecordSet.Rows
import DescriptorCodec.Proofs.RecordSet.Collecting
import DescriptorCodec.Proofs.Version.Releases
import DescriptorCodec.Proofs.Attribute.Platforms
import DescriptorCodec.Proofs.Collection.Equality
import DescriptorCodec.Proofs.Descriptor.Equality
import DescriptorCodec.Proofs.Pool.Filling
import DescriptorCodec.Proofs.Bytes.Offsets
import DescriptorCodec.Proofs.Bytes.RoundTrip
import DescriptorCodec.Proofs.Version.Reporting
import DescriptorCodec.Proofs.RecordSet.Reporting
